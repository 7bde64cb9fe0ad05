import Hill90.Foundation.Joint
import Hill90.Router.Creation
import Hill90.Router.Lasting
import Hill90.Router.Revocation

/-! # A delegation that is created and revoked

The row of a delegation is there before its token is signed, and a revocation revokes whatever
`child_jti` it finds.  A revocation that finds the placeholder leaves the token in force.
-/

namespace Hill90.Router

open Chat (Uuid)
open Program

def placeholder (id : Uuid) : String := s!"pending-{id}"

inductive Stage where
  | idle
  | named (id : Uuid)
  | made (id : Uuid)
  | signed (id : Uuid) (jti : String)
  | written (id : Uuid) (jti : String)
  | revoking (id : Uuid)
  | revoked (id : Uuid) (jti : String)
  | added (id : Uuid) (jti : String)

/-- What neither writes a delegation nor forgets a revoked token. -/
def Statement.harmless : Statement → Bool
  | insertDelegation _ | deleteDelegation _ | updateChildJti .. | revokeDelegation .. | deleteExpired _
  | replaceRevoked _ => false
  | _ => true

def Statement.idles : Statement → Bool
  | randomUUID => false
  | st => st.harmless

namespace Stage

def makes : Stage → Option Uuid
  | named id | made id | signed id _ | written id _ => some id
  | _ => none

def writes : Stage → Option Uuid
  | named id | made id | signed id _ => some id
  | _ => none

def about : Stage → Option Uuid
  | named id | made id | signed id _ | written id _ | revoked id _ | added id _ => some id
  | _ => none

def may : Stage → Statement → Prop
  | idle, st => st.harmless = true
  | named id, .insertDelegation d => d.id = id ∧ d.childJti = placeholder id
  | made _, .signToken .. => True
  | made id, .deleteDelegation id' => id' = id
  | signed id jti, .updateChildJti id' jti' => id' = id ∧ jti' = jti
  | revoking id, .revokeDelegation id' _ => id' = id
  | revoked _ _, .insertRevoked _ => True
  | revoked _ jti, .addRevoked jti' => jti' = jti
  | _, _ => False

def returned : Stage → (st : Statement) → st.Rows → Stage
  | idle, .randomUUID, id => named id
  | named id, .insertDelegation _, _ => made id
  | made id, .signToken .., .signed token => signed id token.jti
  | made _, .deleteDelegation _, _ => idle
  | signed id jti, .updateChildJti .., _ => written id jti
  | revoking id, .revokeDelegation .., some d => revoked id d.childJti
  | revoking _, .revokeDelegation .., none => idle
  | revoked id jti, .addRevoked _, _ => added id jti
  | m, _, _ => m

def rejected : Stage → Statement → Failure → Stage
  | made id, .signToken .., _ => made id
  | _, _, _ => idle

end Stage

def stages : Discipline Statement Statement.Rows Failure Stage where
  may := Stage.may
  returns _ _ := True
  returned := Stage.returned
  rejected := Stage.rejected

def Request.stage : Request → Stage
  | revokeDelegation _ id => .revoking id
  | _ => .idle

/-- A creation hands out the token whose `jti` it has written, and a revocation that succeeds has
added the `jti` it found. -/
def Tells : Request → Response → Stage → Prop
  | .delegate .., .delegated token id _, m => m = .written id token.jti
  | .revokeDelegation _ id, .revoked, m => ∃ jti, m = .added id jti
  | .delegate .., _, _ | .revokeDelegation .., _, _ => False
  | _, _, _ => True

variable {cfg : Config} {m : Stage} {s s' : Store}

theorem meets_idle {α : Type} {p : Handler α} {Q : α → Stage → Prop}
    (hp : Only (fun st => st.idles = true) p) (hQ : ∀ a, Q a .idle) :
    p.Meets stages Q (fun _ _ => True) .idle := by
  refine hp.meets (fun st hst => ⟨?_, fun rows => ?_, fun e => ?_⟩) hQ fun _ => trivial
  · cases st <;> first | rfl | cases hst
  · cases st <;> first | rfl | cases hst
  · cases st <;> rfl

theorem meets_abandon (id : Uuid) {Q : Response → Stage → Prop} :
    (abandon id).Meets stages Q (fun _ _ => True) (.made id) := by
  refine ⟨rfl, fun _ _ => trivial, fun e => ?_⟩
  change Meets stages (((if e.isException then pure () else throw e) : Handler Unit) >>= fun _ =>
    (throw _ : Handler Response)) Q (fun _ _ => True) _
  split <;> trivial

theorem meets_signChild (d : Delegation) (identity : Payload) (body : DelegateRequest) :
    (signChild cfg d).Meets stages (Tells (.delegate identity body)) (fun _ _ => True) (.made d.id) := by
  refine meets_ite (fun _ => trivial) fun _ => ⟨trivial, fun reply _ => ?_, fun e => ?_⟩
  · match reply with
    | .refused _ => exact meets_abandon d.id
    | .malformed => exact meets_abandon d.id
    | .signed token => exact ⟨⟨rfl, rfl⟩, fun _ _ => rfl, fun _ => trivial⟩
  · exact meets_ite (fun _ => meets_abandon d.id) fun _ => trivial

theorem meets_create (identity : Payload) (body : DelegateRequest) :
    (createDelegationEndpoint cfg identity body).Meets stages (Tells (.delegate identity body))
      (fun _ _ => True) .idle := by
  refine meets_ite (fun _ => trivial) fun _ => ?_
  refine meets_then (fun _ m => m = .idle) (meets_idle ?_ fun _ => rfl) ?_
  · exact only_resolveAgentPolicy _ fun st hst => by cases st <;> first | rfl | cases hst
  · rintro parent m rfl
    dsimp only
    split
    · refine ⟨rfl, fun id _ => ?_, fun _ => trivial⟩
      exact ⟨⟨rfl, rfl⟩, fun _ _ => meets_signChild _ identity body, fun _ => trivial⟩
    · trivial

theorem meets_revoke (identity : Payload) (id : Uuid) :
    (revokeDelegationEndpoint identity id).Meets stages (Tells (.revokeDelegation identity id))
      (fun _ _ => True) (.revoking id) := by
  refine meets_ite (fun _ => trivial) fun _ => ⟨rfl, fun deleg _ => ?_, fun _ => trivial⟩
  match deleg with
  | none => trivial
  | some d =>
    refine ⟨trivial, fun _ _ => ?_, fun _ => trivial⟩
    exact ⟨rfl, fun _ _ => ⟨_, rfl⟩, fun _ => trivial⟩

theorem meets_handler (q : Request) (hq : q ≠ .preload ∧ q ≠ .cleanup) :
    (q.handler cfg).Meets stages (Tells q) (fun _ _ => True) q.stage := by
  have henforces : ∀ st : Statement, st.enforces = true → st.idles = true :=
    fun st hst => by cases st <;> first | rfl | cases hst
  have hresolves : ∀ st : Statement, st.resolves = true → st.idles = true :=
    fun st hst => by cases st <;> first | rfl | cases hst
  have hforwards : ∀ (r : Resolved) (st : Statement), st.Forwards r → st.idles = true := by
    rintro r st (hst | ⟨_, _, rfl⟩ | ⟨_, rfl⟩)
    · cases st <;> first | rfl | cases hst
    · rfl
    · rfl
  cases q with
  | chat req =>
    exact meets_idle (only_chatCompletions cfg req henforces hresolves hforwards) fun _ => trivial
  | embeddings req =>
    exact meets_idle (only_embeddings cfg req henforces hresolves hforwards) fun _ => trivial
  | delegate identity body => exact meets_create identity body
  | revokeDelegation identity id => exact meets_revoke identity id
  | revoke r =>
    exact ⟨rfl, fun _ _ => ⟨rfl, fun _ _ => trivial, fun _ => trivial⟩, fun _ => trivial⟩
  | preload => exact absurd rfl hq.1
  | cleanup => exact absurd rfl hq.2

/-! ## What the stages know of the rows -/

def Store.childOf (s : Store) (id : Uuid) : Option String := (s.delegations.get? id).map Delegation.childJti

def Knows (s : Store) : Stage → Prop
  | .idle | .revoking _ => True
  | .named id => id < s.nextId ∧ s.childOf id = none
  | .made id | .signed id _ => id < s.nextId ∧ s.childOf id = some (placeholder id)
  | .written id jti => id < s.nextId ∧ s.childOf id = some jti
  | .revoked id jti => jti ≠ placeholder id ∧ s.childOf id = some jti
  | .added id jti => jti ≠ placeholder id ∧ s.childOf id = some jti ∧ jti ∈ s.revokedJtis

/-- Each creation has a delegation of its own, and each stage knows its row. -/
structure Agreed (s : Store) (modes : ℕ → Option Stage) : Prop where
  bound : ∀ id, s.childOf id ≠ none → id < s.nextId
  knows : ∀ i m, modes i = some m → Knows s m
  own : ∀ i j m n id, modes i = some m → modes j = some n → m.makes = some id → n.makes = some id → i = j

structure Writes (only : Option Uuid) (s s' : Store) : Prop where
  child : ∀ id, some id ≠ only → s'.childOf id = s.childOf id
  nextId : s.nextId ≤ s'.nextId
  cache : ∀ jti ∈ s.revokedJtis, jti ∈ s'.revokedJtis

variable {modes : ℕ → Option Stage} {i : ℕ} {only : Option Uuid}

theorem Knows.kept (hk : Knows s m) (h : Writes only s s') (hm : m.about ≠ only ∨ only = none) :
    Knows s' m := by
  have hchild : ∀ id, m.about = some id → s'.childOf id = s.childOf id := by
    intro id hid
    apply h.child
    rintro rfl
    obtain hm | hm := hm
    · exact hm hid
    · cases hm
  cases m with
  | idle | revoking => trivial
  | named id => exact ⟨lt_of_lt_of_le hk.1 h.nextId, by rw [hchild id rfl]; exact hk.2⟩
  | made id => exact ⟨lt_of_lt_of_le hk.1 h.nextId, by rw [hchild id rfl]; exact hk.2⟩
  | signed id => exact ⟨lt_of_lt_of_le hk.1 h.nextId, by rw [hchild id rfl]; exact hk.2⟩
  | written id jti => exact ⟨lt_of_lt_of_le hk.1 h.nextId, by rw [hchild id rfl]; exact hk.2⟩
  | revoked id jti => exact ⟨hk.1, by rw [hchild id rfl]; exact hk.2⟩
  | added id jti => exact ⟨hk.1, by rw [hchild id rfl]; exact hk.2.1, h.cache _ hk.2.2⟩

/-- Whose row may still be written knows that it has no `child_jti` of its own. -/
theorem Knows.unwritten {id : Uuid} (hk : Knows s m) (hm : m.writes = some id) :
    ∀ jti, s.childOf id = some jti → jti = placeholder id := by
  cases m with
  | named id' =>
    cases hm
    intro jti hjti
    rw [hk.2] at hjti
    cases hjti
  | made id' | signed id' =>
    cases hm
    intro jti hjti
    rw [hk.2] at hjti
    exact (Option.some.inj hjti).symm
  | idle | written | revoking | revoked | added => cases hm

/-- A request takes a step of its own: the others know what they knew. -/
theorem Agreed.move (hG : Agreed s modes) (hm : modes i = some m) (h : Writes only s s')
    (honly : only = none ∨ only = m.writes) (hbound : ∀ id, s'.childOf id ≠ none → id < s'.nextId)
    {m' : Stage} (hknows : Knows s' m') (hmakes : m'.makes = none ∨ m'.makes = m.makes) :
    Agreed s' (Function.update modes i (some m')) := by
  refine ⟨hbound, fun j n hn => ?_, fun j k n n' id hn hn' hid hid' => ?_⟩
  · obtain ⟨rfl, rfl⟩ | ⟨hji, hn⟩ := Service.update_eq_some hn
    · exact hknows
    · refine (hG.knows j n hn).kept h ?_
      obtain rfl | rfl := honly
      · exact .inr rfl
      · by_cases hsame : n.about = m.writes
        · cases hwrites : m.writes with
          | none => exact .inr rfl
          | some id =>
            exfalso
            rw [hwrites] at hsame
            have hmade : m.makes = some id := by cases m <;> first | exact hwrites | cases hwrites
            have hunwritten := (hG.knows i m hm).unwritten hwrites
            have hknown := hG.knows j n hn
            cases n with
            | idle | revoking => cases hsame
            | named | made | signed | written => exact hji (hG.own j i _ _ id hn hm hsame hmade)
            | revoked id' jti =>
              cases hsame
              exact hknown.1 (hunwritten jti hknown.2)
            | added id' jti =>
              cases hsame
              exact hknown.1 (hunwritten jti hknown.2.1)
        · exact .inl hsame
  · have hback : ∀ {l : ℕ} {x : Stage}, Function.update modes i (some m') l = some x →
        x.makes = some id → ∃ y, modes l = some y ∧ y.makes = some id := by
      intro l x hx hxid
      obtain ⟨rfl, rfl⟩ | ⟨_, hx⟩ := Service.update_eq_some hx
      · obtain hnone | hsame := hmakes
        · rw [hnone] at hxid
          cases hxid
        · exact ⟨m, hm, hsame ▸ hxid⟩
      · exact ⟨x, hx, hxid⟩
    obtain ⟨y, hy, hyid⟩ := hback hn hid
    obtain ⟨y', hy', hyid'⟩ := hback hn' hid'
    exact hG.own j k y y' id hy hy' hyid hyid'

theorem childOf_insert {d : Delegation} {rows : Table Delegation.id}
    (h : s.delegations.insert d = some rows) (id : Uuid) :
    ({ s with delegations := rows } : Store).childOf id =
      if id = d.id then some d.childJti else s.childOf id := by
  have hget : rows.get? id = if id = d.id then some d else s.delegations.get? id := Table.get?_insert h id
  change (rows.get? id).map Delegation.childJti = _
  rw [hget]
  split <;> rfl

theorem childOf_delete (id₀ id : Uuid) :
    ({ s with delegations := s.delegations.delete fun d => d.id = id₀ } : Store).childOf id =
      if id = id₀ then none else s.childOf id := by
  have hget : (s.delegations.delete fun d => d.id = id₀).get? id =
      if id = id₀ then none else s.delegations.get? id := Table.get?_delete id₀ id
  change ((s.delegations.delete fun d => d.id = id₀).get? id).map Delegation.childJti = _
  rw [hget]
  split <;> rfl

theorem childOf_rewrite (p : Delegation → Bool) (f : Delegation → Delegation)
    (hf : ∀ d, (f d).id = d.id) (id : Uuid) :
    (s.rewriteDelegation p f hf).childOf id =
      (s.delegations.get? id).map fun d => (if p d then f d else d).childJti := by
  have hget : (s.delegations.patch p (fun _ => f) 0 fun _ => hf).get? id =
      (s.delegations.get? id).map fun d => if p d then f d else d := Table.get?_patch_eq
  change ((s.delegations.patch p (fun _ => f) 0 fun _ => hf).get? id).map Delegation.childJti = _
  rw [hget, Option.map_map]
  rfl

theorem writes_refl (s : Store) (only : Option Uuid) : Writes only s s :=
  ⟨fun _ _ => rfl, le_rfl, fun _ h => h⟩

theorem harmless_run {c : Choice} {st : Statement} {rows : st.Rows} (hst : st.harmless = true)
    (h : Statement.run s c st = .ok (rows, s')) : Writes none s s' ∧ s'.delegations = s.delegations := by
  cases st with
  | insertDelegation | deleteDelegation | updateChildJti | revokeDelegation | deleteExpired
  | replaceRevoked => cases hst
  | randomUUID =>
    cases h
    exact ⟨⟨fun _ _ => rfl, Nat.le_succ _, fun _ h => h⟩, rfl⟩
  | signToken =>
    cases h
    exact ⟨⟨fun _ _ => rfl, Nat.le_succ _, fun _ h => h⟩, rfl⟩
  | addRevoked =>
    cases h
    exact ⟨⟨fun _ _ => rfl, le_rfl, fun _ h => List.mem_cons_of_mem _ h⟩, rfl⟩
  | _ =>
    cases h
    exact ⟨⟨fun _ _ => rfl, le_rfl, fun _ h => h⟩, rfl⟩

/-- A revocation does not find the placeholder in the row it revokes. -/
def FindsToken (s : Store) : Statement → Prop
  | .revokeDelegation id agentId => ∀ d, s.delegations.get? id = some d → d.parentAgentId = agentId →
    d.revokedAt = none → d.childJti ≠ placeholder id
  | _ => True

theorem Agreed.still (hG : Agreed s modes) (hm : modes i = some m) (h : Writes none s s')
    {n : Stage} (hknows : Knows s' n) (hmakes : n.makes = none ∨ n.makes = m.makes) :
    Agreed s' (Function.update modes i (some n)) := by
  refine hG.move hm h (.inl rfl) (fun id hid => ?_) hknows hmakes
  rw [h.child id (by simp)] at hid
  exact lt_of_lt_of_le (hG.bound id hid) h.nextId

theorem Agreed.idle (hG : Agreed s modes) (hm : modes i = some m) :
    Agreed s (Function.update modes i (some .idle)) :=
  hG.still hm (writes_refl s none) trivial (.inl rfl)

theorem Agreed.name (hG : Agreed s modes) (hm : modes i = some .idle) :
    Agreed { s with nextId := s.nextId + 1 } (Function.update modes i (some (.named s.nextId))) := by
  have hwrites : Writes none s { s with nextId := s.nextId + 1 } :=
    ⟨fun _ _ => rfl, Nat.le_succ _, fun _ h => h⟩
  have hidle := hG.still hm hwrites (n := .idle) trivial (.inl rfl)
  have hnone : s.childOf s.nextId = none := by
    by_contra hsome
    exact lt_irrefl _ (hG.bound _ hsome)
  have hfresh : ∀ j n, modes j = some n → n.makes ≠ some s.nextId := by
    intro j n hn hmakes
    have hknown := hG.knows j n hn
    cases n with
    | named | made | signed | written =>
      cases hmakes
      exact lt_irrefl _ hknown.1
    | idle | revoking | revoked | added => cases hmakes
  refine ⟨hidle.bound, fun j n hn => ?_, fun j k n n' id hn hn' hid hid' => ?_⟩
  · obtain ⟨rfl, rfl⟩ | ⟨hji, hn⟩ := Service.update_eq_some hn
    · exact ⟨Nat.lt_succ_self _, hnone⟩
    · exact (hG.knows j n hn).kept hwrites (.inr rfl)
  · obtain ⟨rfl, rfl⟩ | ⟨_, hold⟩ := Service.update_eq_some hn
    · obtain ⟨rfl, rfl⟩ | ⟨_, hold'⟩ := Service.update_eq_some hn'
      · rfl
      · cases hid
        exact absurd hid' (hfresh k n' hold')
    · obtain ⟨rfl, rfl⟩ | ⟨_, hold'⟩ := Service.update_eq_some hn'
      · cases hid'
        exact absurd hid (hfresh j n hold)
      · exact hG.own j k n n' id hold hold' hid hid'

/-- What an effect does to the delegations, where a revocation finds no placeholder. -/
theorem agreed_effect {c : Choice} {st : Statement} {rows : st.Rows} (hG : Agreed s modes)
    (hm : modes i = some m) (hmay : m.may st) (hfinds : FindsToken s st)
    (h : Statement.run s c st = .ok (rows, s')) :
    Agreed s' (Function.update modes i (some (m.returned st rows))) ∧
      ∀ e, Agreed s' (Function.update modes i (some (m.rejected st e))) := by
  cases m with
  | idle =>
    obtain ⟨hwrites, _⟩ := harmless_run hmay h
    refine ⟨?_, fun e => hG.still hm hwrites trivial (.inl (by cases st <;> rfl))⟩
    by_cases hst : st = .randomUUID
    · subst hst
      cases h
      exact hG.name hm
    · have hsame : Stage.idle.returned st rows = .idle := by
        cases st <;> first | rfl | exact absurd rfl hst
      rw [hsame]
      exact hG.still hm hwrites trivial (.inl rfl)
  | named id =>
    cases st with
    | insertDelegation d =>
      obtain ⟨hid, hchild⟩ := hmay
      simp only [Statement.run] at h
      split at h
      · rename_i delegations hinsert
        cases h
        have hrow := fun id => childOf_insert (s := s) hinsert id
        have hwrites : Writes (some id) s { s with delegations } := by
          refine ⟨fun id' hid' => ?_, le_rfl, fun _ h => h⟩
          rw [hrow, if_neg]
          rintro rfl
          exact hid' (by rw [← hid])
        have hbound : ∀ id', ({ s with delegations } : Store).childOf id' ≠ none → id' < s.nextId := by
          intro id' hid'
          by_cases hsame : id' = id
          · rw [hsame]
            exact (hG.knows i _ hm).1
          · rw [hwrites.child id' (by simpa using hsame)] at hid'
            exact hG.bound id' hid'
        refine ⟨hG.move hm hwrites (.inr rfl) hbound ⟨(hG.knows i _ hm).1, ?_⟩ (.inr rfl),
          fun e => hG.move hm hwrites (.inr rfl) hbound trivial (.inl rfl)⟩
        rw [hrow, if_pos hid.symm, hchild]
      · cases h
    | _ => cases hmay
  | made id =>
    cases st with
    | signToken sub did pj exp =>
      have hst : (Statement.signToken sub did pj exp).harmless = true := rfl
      obtain ⟨hwrites, _⟩ := harmless_run hst h
      have hknown := (hG.knows i _ hm).kept hwrites (.inr rfl)
      refine ⟨?_, fun e => hG.still hm hwrites hknown (.inr rfl)⟩
      cases rows with
      | refused => exact hG.still hm hwrites hknown (.inr rfl)
      | malformed => exact hG.still hm hwrites hknown (.inr rfl)
      | signed token => exact hG.still hm hwrites (n := .signed id token.jti) hknown (.inr rfl)
    | deleteDelegation id' =>
      cases hmay
      cases h
      have hwrites : Writes (some id) s
          { s with delegations := s.delegations.delete fun d => d.id = id } := by
        refine ⟨fun id' hid' => ?_, le_rfl, fun _ h => h⟩
        rw [childOf_delete, if_neg (by simpa using hid')]
      have hbound : ∀ id', ({ s with delegations := s.delegations.delete fun d => d.id = id } :
          Store).childOf id' ≠ none → id' < s.nextId := by
        intro id' hid'
        rw [childOf_delete] at hid'
        split at hid'
        · exact absurd rfl hid'
        · exact hG.bound id' hid'
      exact ⟨hG.move hm hwrites (.inr rfl) hbound trivial (.inl rfl),
        fun e => hG.move hm hwrites (.inr rfl) hbound trivial (.inl rfl)⟩
    | _ => cases hmay
  | signed id jti =>
    cases st with
    | updateChildJti id' jti' =>
      obtain ⟨rfl, rfl⟩ := hmay
      cases h
      have hrow := fun id => childOf_rewrite (s := s) (fun d => decide (d.id = id'))
        (fun d => { d with childJti := jti' }) (fun _ => rfl) id
      have hget : ∀ id d, s.delegations.get? id = some d → d.id = id := fun _ _ => Table.key_of_get?
      have hwrites : Writes (some id') s (s.rewriteDelegation (fun d => d.id = id')
          (fun d => { d with childJti := jti' }) fun _ => rfl) := by
        refine ⟨fun id hid => ?_, le_rfl, fun _ h => h⟩
        rw [hrow]
        unfold Store.childOf
        cases hd : s.delegations.get? id with
        | none => rfl
        | some d =>
          have hne : d.id ≠ id' := fun heq => hid (by rw [← heq, hget id d hd])
          simp [hne]
      obtain ⟨hlt, hchild⟩ := hG.knows i _ hm
      obtain ⟨d, hd, _⟩ := Option.map_eq_some_iff.mp hchild
      have hwritten : (s.rewriteDelegation (fun d => d.id = id')
          (fun d => { d with childJti := jti' }) fun _ => rfl).childOf id' = some jti' := by
        rw [hrow, hd]
        simp [hget id' d hd]
      have hbound : ∀ id, (s.rewriteDelegation (fun d => d.id = id')
          (fun d => { d with childJti := jti' }) fun _ => rfl).childOf id ≠ none → id < s.nextId := by
        intro id hid
        by_cases hsame : id = id'
        · rw [hsame]
          exact hlt
        · rw [hwrites.child id (by simpa using hsame)] at hid
          exact hG.bound id hid
      exact ⟨hG.move hm hwrites (.inr rfl) hbound ⟨hlt, hwritten⟩ (.inr rfl),
        fun e => hG.move hm hwrites (.inr rfl) hbound trivial (.inl rfl)⟩
    | _ => cases hmay
  | written => cases hmay
  | revoking id =>
    cases st with
    | revokeDelegation id' agentId =>
      cases hmay
      cases h
      have hwrites : Writes none s (s.rewriteDelegation
          (fun d => d.id = id && d.parentAgentId = agentId && d.revokedAt.isNone)
          (fun d => { d with revokedAt := some s.now }) fun _ => rfl) := by
        refine ⟨fun id' _ => ?_, le_rfl, fun _ h => h⟩
        rw [childOf_rewrite]
        unfold Store.childOf
        congr 1
        funext d
        split <;> rfl
      refine ⟨?_, fun e => hG.still hm hwrites trivial (.inl rfl)⟩
      cases hfound : (s.delegations.get? id).bind fun d =>
          if (decide (d.id = id) && decide (d.parentAgentId = agentId) && d.revokedAt.isNone) = true then
            some { d with revokedAt := some s.now }
          else none with
      | none => exact hG.still hm hwrites (n := .idle) trivial (.inl rfl)
      | some d' =>
        obtain ⟨d, hd, hactive⟩ := Option.bind_eq_some_iff.mp hfound
        split at hactive
        · rename_i hcond
          cases hactive
          simp only [Bool.and_eq_true, decide_eq_true_eq, Option.isNone_iff_eq_none] at hcond
          have hknows : Knows (s.rewriteDelegation
              (fun d => d.id = id && d.parentAgentId = agentId && d.revokedAt.isNone)
              (fun d => { d with revokedAt := some s.now }) fun _ => rfl) (.revoked id d.childJti) := by
            refine ⟨hfinds d hd hcond.1.2 hcond.2, ?_⟩
            rw [hwrites.child id (by simp), Store.childOf, hd]
            rfl
          exact hG.still hm hwrites (n := .revoked id d.childJti) hknows (.inl rfl)
        · cases hactive
    | _ => cases hmay
  | revoked id jti =>
    cases st with
    | insertRevoked r =>
      have hst : (Statement.insertRevoked r).harmless = true := rfl
      obtain ⟨hwrites, _⟩ := harmless_run hst h
      have hknown := (hG.knows i _ hm).kept hwrites (.inr rfl)
      exact ⟨hG.still hm hwrites hknown (.inr rfl), fun e => hG.still hm hwrites trivial (.inl rfl)⟩
    | addRevoked jti' =>
      cases hmay
      have hst : (Statement.addRevoked jti).harmless = true := rfl
      obtain ⟨hwrites, _⟩ := harmless_run hst h
      have hknown := (hG.knows i _ hm).kept hwrites (.inr rfl)
      cases h
      exact ⟨hG.still hm hwrites (n := .added id jti) ⟨hknown.1, hknown.2, List.mem_cons_self⟩ (.inl rfl),
        fun e => hG.still hm hwrites trivial (.inl rfl)⟩
    | _ => cases hmay
  | added => cases hmay

/-! ## Every order of the steps -/

/-- No preload and no cleanup arrives, and no revocation takes effect while the row it revokes
still has its placeholder. -/
def Orderly (S : State) (a : RouterMove) : Prop :=
  (∀ q, a = .arrive q → q ≠ .preload ∧ q ≠ .cleanup) ∧
    ∀ st c, S.taking a = some (st, c) → FindsToken S.store st

theorem agreed_joint : (service cfg).Joint stages Orderly Request.stage Tells Agreed where
  handler _ q hok := meets_handler q (hok.1 q rfl)
  fresh s h := by
    have hnone : ∀ id, s.childOf id = none := by
      intro id
      rw [Store.childOf, Table.get?_eq_none_iff.mpr (by simp [h.delegations]), Option.map_none]
    exact ⟨fun id hid => absurd (hnone id) hid, nofun, nofun⟩
  arrive s modes i q hG hnone := by
    have hstart : Knows s q.stage ∧ q.stage.makes = none := by cases q <;> exact ⟨trivial, rfl⟩
    refine ⟨hG.bound, fun j n hn => ?_, fun j k n n' id hn hn' hid hid' => ?_⟩
    · obtain ⟨rfl, rfl⟩ | ⟨_, hold⟩ := Service.update_eq_some hn
      · exact hstart.1
      · exact hG.knows j n hold
    · obtain ⟨rfl, rfl⟩ | ⟨_, hold⟩ := Service.update_eq_some hn
      · rw [hstart.2] at hid
        cases hid
      · obtain ⟨rfl, rfl⟩ | ⟨_, hold'⟩ := Service.update_eq_some hn'
        · rw [hstart.2] at hid'
          cases hid'
        · exact hG.own j k n n' id hold hold' hid hid'
  effect S a i c st rows s' modes m hok htaking hG hm hmay heff :=
    ⟨trivial, agreed_effect hG hm hmay (hok.2 st c htaking) heff⟩
  fail s modes i m st e hG hm _ := by
    change Agreed s (Function.update modes i (some (m.rejected st e)))
    unfold Stage.rejected
    split
    · exact hG.still hm (writes_refl s none) (hG.knows i _ hm) (.inr rfl)
    · exact hG.idle hm
  around S modes x s' _ hG heff := by
    have hwrites : Writes none S.store s' ∧ s'.nextId = S.store.nextId := by
      cases x with
      | tick d =>
        simp only [service, Surroundings.apply] at heff
        split at heff
        · cases heff
          exact ⟨⟨fun _ _ => rfl, le_rfl, fun _ h => h⟩, rfl⟩
        · cases heff
      | rewrite policies catalog owners =>
        cases heff
        exact ⟨⟨fun _ _ => rfl, le_rfl, fun _ h => h⟩, rfl⟩
    refine ⟨fun id hid => ?_, fun i m hm => (hG.knows i m hm).kept hwrites.1 (.inr rfl), hG.own⟩
    rw [hwrites.1.child id (by simp)] at hid
    exact lt_of_lt_of_le (hG.bound id hid) hwrites.1.nextId

/-- Once a revocation of a delegation has succeeded, the token that its creation hands out is
refused, in every order of their steps in which no revocation finds the placeholder. -/
theorem revoked_child_refused {S : State} (h : (service cfg).machine.ReachableIf Orderly S)
    {i j : ℕ} {identity identity' : Payload} {body : DelegateRequest} {token : Payload} {id : Uuid}
    {exp : ℤ} (hi : S.requests i = some (.delegate identity body, .reply (.delegated token id exp)))
    (hj : S.requests j = some (.revokeDelegation identity' id, .reply .revoked))
    {τ : Type} {D : Decoder τ} {t : τ} {now : ℚ} (ht : D.decode t now = .ok token) (p : Payload) :
    verifyModelRouterToken D t S.store.now S.store.revokedJtis ≠ .ok p := by
  obtain ⟨modes, hfollows, hG⟩ := agreed_joint.reachable h
  obtain ⟨m, hm, hwritten⟩ := hfollows.replied hi
  obtain ⟨n, hn, hadded⟩ := hfollows.replied hj
  cases hwritten
  obtain ⟨jti, rfl⟩ := hadded
  obtain ⟨_, hchild⟩ := hG.knows i _ hm
  obtain ⟨_, hchild', hmem⟩ := hG.knows j _ hn
  rw [hchild] at hchild'
  cases hchild'
  intro hverify
  obtain ⟨hdecode, hjti⟩ := verify_eq_ok hverify
  cases D.same _ _ _ _ _ ht hdecode
  exact hjti hmem

/-- The moves pass, as a check on a state of which every request is known. -/
def orderlyNow (S : State) (a : RouterMove) : Bool :=
  match a with
  | .arrive .preload | .arrive .cleanup => false
  | a =>
    match S.taking a with
    | some (.revokeDelegation id agentId, _) => (S.store.delegations.get? id).all fun d =>
      d.parentAgentId ≠ agentId || d.revokedAt.isSome || d.childJti ≠ placeholder id
    | _ => true

theorem orderly_of_check {S : State} {a : RouterMove} (h : orderlyNow S a = true) : Orderly S a := by
  constructor
  · rintro q rfl
    cases q with
    | preload | cleanup => cases h
    | chat | embeddings | delegate | revokeDelegation | revoke => exact ⟨nofun, nofun⟩
  · intro st c htaking
    cases st with
    | revokeDelegation id agentId =>
      intro d hd hparent hrevoked
      have hall : ((S.store.delegations.get? id).all fun d =>
          d.parentAgentId ≠ agentId || d.revokedAt.isSome || d.childJti ≠ placeholder id) = true := by
        unfold orderlyNow at h
        cases a with
        | arrive q => cases htaking
        | resume | reject | lose | environment =>
          simp only [htaking] at h
          exact h
      simpa [hd, hparent, hrevoked] using hall
    | _ => trivial

def delegating : State := ⟨onePolicy scoutPolicy, fun _ => none, 0⟩

theorem initial_delegating : (service unkeyed).machine.initial delegating :=
  ⟨fresh_onePolicy scoutPolicy, rfl, rfl⟩

/-- The revocation arrives when the delegation has been created. -/
def revokedLater : List RouterMove :=
  [.arrive (.delegate scoutToken helperBody), .resume 0 {}, .resume 0 {}, .resume 0 {}, .resume 0 {},
    .resume 0 {}, .resume 0 {}, .arrive (.revokeDelegation scoutToken 0), .resume 1 {}, .resume 1 {},
    .resume 1 {}]

def revokedEarly : List RouterMove :=
  [.arrive (.delegate scoutToken helperBody), .resume 0 {}, .resume 0 {}, .resume 0 {}, .resume 0 {},
    .arrive (.revokeDelegation scoutToken 0), .resume 1 {}, .resume 1 {}, .resume 1 {}, .resume 0 {},
    .resume 0 {}]

def childToken (jti : String) : Payload where
  sub := "scout"
  exp := 3600
  iat := 0
  jti := jti
  delegationId := some 0
  parentJti := some "a1"

theorem revoked_child_refused_later :
    verifyModelRouterToken plainDecoder (childToken "1")
      ((service unkeyed).machine.after delegating revokedLater).store.now
      ((service unkeyed).machine.after delegating revokedLater).store.revokedJtis ≠
        .ok (childToken "1") := by
  have hreach : (service unkeyed).machine.ReachableIf Orderly
      ((service unkeyed).machine.after delegating revokedLater) :=
    Machine.reachableIf_of_accepts (fun _ _ _ hc => orderly_of_check hc) initial_delegating
      (by decide +kernel)
  have hdecode : plainDecoder.decode (childToken "1") 0 = .ok (childToken "1") := by decide +kernel
  exact revoked_child_refused hreach (i := 0) (j := 1) rfl rfl hdecode _

def NoRefresh (_ : State) (a : RouterMove) : Prop :=
  ∀ q, a = .arrive q → q ≠ .preload ∧ q ≠ .cleanup

def unrefreshing : RouterMove → Bool
  | .arrive .preload | .arrive .cleanup => false
  | _ => true

/-- A revocation between the `INSERT` and the signature revokes the placeholder. -/
theorem placeholder_revoked :
    ¬∀ (cfg : Config) (S : State), (service cfg).machine.ReachableIf NoRefresh S →
      ∀ (i j : ℕ) (identity identity' : Payload) (body : DelegateRequest) (token : Payload) (id : Uuid)
        (exp : ℤ), S.requests i = some (.delegate identity body, .reply (.delegated token id exp)) →
        S.requests j = some (.revokeDelegation identity' id, .reply .revoked) →
        ∀ {τ : Type} (D : Decoder τ) (t : τ) (now : ℚ), D.decode t now = .ok token →
          ∀ p, verifyModelRouterToken D t S.store.now S.store.revokedJtis ≠ .ok p := by
  intro h
  have hreach : (service unkeyed).machine.ReachableIf NoRefresh
      ((service unkeyed).machine.after delegating revokedEarly) := by
    refine Machine.reachableIf_of_accepts (C := fun _ a => unrefreshing a) (fun S a _ hc => ?_)
      initial_delegating (by decide +kernel)
    rintro q rfl
    cases q with
    | preload | cleanup => cases hc
    | chat | embeddings | delegate | revokeDelegation | revoke => exact ⟨fun h => (by cases h), fun h => (by cases h)⟩
  exact h unkeyed _ hreach 0 1 scoutToken scoutToken helperBody (childToken "1") 0 3600 rfl rfl
    plainDecoder (childToken "1") 0 (by decide +kernel) (childToken "1") (by decide +kernel)

end Hill90.Router
