import Hill90.Agents.Routes

/-! # The model-router tokens of an agent

Each token that was signed is revoked or named by the row of its agent.  A start writes over
the name in the row, and a token between its signature and the write is in no row at all.
-/

namespace Hill90.Agents

open Chat (Uuid Failure)
open Program

namespace Store

def Alive (s : Store) (t : Token) : Prop :=
  t ∈ s.issued ∧ t.kind = .modelRouter ∧ s.now < t.exp

def named (a : Agent) (jti : Uuid) : Prop := ∃ c, a.modelRouter = some c ∧ c.jti = jti

/-- Every live token of an agent that exists is revoked, or its row stores it. -/
def Held (s : Store) : Prop :=
  ∀ t, s.Alive t → ∀ a, s.agent? t.agent = some a → t.jti ∈ s.revoked ∨ named a t.jti

def Settled (s : Store) (id : Uuid) : Prop :=
  ∀ t, s.Alive t → t.agent = id → t.jti ∈ s.revoked

/-- As `Held`, where the tokens of one agent that are not revoked are those of `N`. -/
def Among (s : Store) (id : Uuid) (N : Uuid → Prop) : Prop :=
  ∀ t, s.Alive t → ∀ a, s.agent? t.agent = some a →
    t.jti ∈ s.revoked ∨ (t.agent = id ∧ N t.jti) ∨ (t.agent ≠ id ∧ named a t.jti)

def Stores (s : Store) (id : Uuid) (m : Option Credential) : Prop :=
  ∀ a, s.agent? id = some a → a.modelRouter = m

/-- Nothing about model-router tokens has changed but that more of them are revoked. -/
structure Eased (s s' : Store) : Prop where
  now : s'.now = s.now
  issued : ∀ t ∈ s'.issued, t.kind = .modelRouter → t ∈ s.issued
  revoked : s.revoked ⊆ s'.revoked
  rows : ∀ id a', s'.agent? id = some a' → ∃ a, s.agent? id = some a ∧ a'.modelRouter = a.modelRouter

variable {s s' : Store} {id : Uuid} {N N' : Uuid → Prop}

theorem Eased.alive (h : Eased s s') {t : Token} (ht : s'.Alive t) : s.Alive t := by
  obtain ⟨hissued, hkind, hexp⟩ := ht
  rw [h.now] at hexp
  exact ⟨h.issued t hissued hkind, hkind, hexp⟩

theorem Eased.among (h : Eased s s') (hs : s.Among id N) : s'.Among id N := by
  intro t ht a' ha'
  obtain ⟨a, ha, hsame⟩ := h.rows t.agent a' ha'
  obtain hrevoked | hown | ⟨hne, c, hc, hjti⟩ := hs t (h.alive ht) a ha
  · exact .inl (h.revoked hrevoked)
  · exact .inr (.inl hown)
  · exact .inr (.inr ⟨hne, c, hsame.trans hc, hjti⟩)

theorem Eased.stores {m : Option Credential} (h : Eased s s') (hs : s.Stores id m) :
    s'.Stores id m := by
  intro a' ha'
  obtain ⟨a, ha, hsame⟩ := h.rows id a' ha'
  exact hsame.trans (hs a ha)

theorem Among.mono (hs : s.Among id N) (h : ∀ j, N j → N' j) : s.Among id N' := by
  intro t ht a ha
  obtain hrevoked | ⟨hid, hN⟩ | hother := hs t ht a ha
  · exact .inl hrevoked
  · exact .inr (.inl ⟨hid, h _ hN⟩)
  · exact .inr (.inr hother)

theorem Held.among {a : Agent} (hs : s.Held) (ha : s.agent? id = some a) :
    s.Among id (named a) := by
  intro t ht a' ha'
  obtain hrevoked | hnamed := hs t ht a' ha'
  · exact .inl hrevoked
  · by_cases hid : t.agent = id
    · subst hid
      cases ha.symm.trans ha'
      exact .inr (.inl ⟨rfl, hnamed⟩)
    · exact .inr (.inr ⟨hid, hnamed⟩)

theorem Held.settled (hs : s.Held) (hid : s.Settled id) : s.Among id fun _ => False := by
  intro t ht a ha
  by_cases h : t.agent = id
  · exact .inl (hid t ht h)
  · obtain hrevoked | hnamed := hs t ht a ha
    · exact .inl hrevoked
    · exact .inr (.inr ⟨h, hnamed⟩)

theorem Among.held {m : Option Credential} (hs : s.Among id N) (hm : s.Stores id m)
    (h : ∀ j, N j → ∃ c, m = some c ∧ c.jti = j) : s.Held := by
  intro t ht a ha
  obtain hrevoked | ⟨rfl, hN⟩ | ⟨_, hnamed⟩ := hs t ht a ha
  · exact .inl hrevoked
  · obtain ⟨c, hc, hjti⟩ := h _ hN
    exact .inr ⟨c, (hm a ha).trans hc, hjti⟩
  · exact .inr hnamed

end Store

open Store

def Statement.tokenless : Statement → Bool
  | .mint .modelRouter _ | .storeToken .modelRouter .. | .markStopped .. => false
  | _ => true

variable {cfg : Config} {s s' : Store} {c : Choice} {st : Statement}

theorem Store.eased_refl (s : Store) : Eased s s :=
  ⟨rfl, fun _ ht _ => ht, fun _ ht => ht, fun _ a ha => ⟨a, ha, rfl⟩⟩

theorem Store.eased_of_eq (hagents : s'.agents = s.agents) (hissued : s'.issued = s.issued)
    (hrevoked : s'.revoked = s.revoked) (hnow : s'.now = s.now) : Eased s s' where
  now := hnow
  issued t ht _ := hissued ▸ ht
  revoked t ht := hrevoked.symm ▸ ht
  rows id a' ha' := by
    rw [Store.agent?, hagents] at ha'
    exact ⟨a', ha', rfl⟩

theorem Store.eased_rewrite (s : Store) {id : Uuid} {f : Agent → Agent} {hf : ∀ a, (f a).id = a.id}
    (h : ∀ a, (f a).modelRouter = a.modelRouter) : Eased s (s.rewrite id f hf) where
  now := rfl
  issued _ ht _ := ht
  revoked _ ht := ht
  rows id' a' ha' := by
    rw [agent?_rewrite, Option.map_eq_some_iff] at ha'
    obtain ⟨a, ha, rfl⟩ := ha'
    refine ⟨a, ha, ?_⟩
    split
    · exact h a
    · rfl

theorem eased_run (hst : st.tokenless = true) {rows : st.Rows}
    (h : Statement.run s c st = .ok (rows, s')) : Eased s s' := by
  have hcontainer : ∀ {agentId : String} {f : Container → Option Container} {u : Unit × Store},
      s.withContainer agentId f = .ok u → Eased s u.2 := by
    intro agentId f u hu
    rw [Store.withContainer] at hu
    split at hu
    · cases hu
      exact eased_of_eq rfl rfl rfl rfl
    · cases hu
  cases st with
  | mint kind id =>
    cases kind with
    | modelRouter => cases hst
    | akm =>
      simp only [Statement.run] at h
      split at h
      · cases h
        refine ⟨rfl, fun t ht hkind => ?_, fun _ ht => ht, fun _ a ha => ⟨a, ha, rfl⟩⟩
        obtain rfl | ht := List.mem_cons.mp ht
        · cases hkind
        · exact ht
      · cases h
        exact s.eased_refl
  | revoke kind agentId jti =>
    cases h
    exact ⟨rfl, fun _ ht _ => ht, fun _ ht => List.mem_cons_of_mem _ ht, fun _ a ha => ⟨a, ha, rfl⟩⟩
  | stopContainer agentId => exact hcontainer h
  | removeContainer agentId => exact hcontainer h
  | createContainer agentId =>
    simp only [Statement.run] at h
    split at h
    · cases h
    · cases h
      exact eased_of_eq rfl rfl rfl rfl
  | startContainer agentId containerId =>
    simp only [Statement.run] at h
    split at h
    · split at h
      · cases h
        exact eased_of_eq rfl rfl rfl rfl
      · cases h
    · cases h
  | inspectCreated agentId containerId =>
    simp only [Statement.run] at h
    split at h
    · split at h
      · cases h
        exact eased_of_eq rfl rfl rfl rfl
      · cases h
    · cases h
  | storeToken kind id credential =>
    cases kind with
    | modelRouter => cases hst
    | akm =>
      cases h
      exact s.eased_rewrite fun _ => rfl
  | markStopped id keepAkm keepModelRouter => cases hst
  | insertSession id startedAt =>
    simp only [Statement.run] at h
    split at h
    · cases h
      exact ⟨rfl, fun _ ht _ => ht, fun _ ht => ht, fun _ a ha => ⟨a, ha, rfl⟩⟩
    · cases h
  | deleteAgent id =>
    cases h
    exact ⟨rfl, fun _ ht _ => ht, fun _ ht => ht, fun _ a' ha' => ⟨a', (Table.get?_of_delete ha').1, rfl⟩⟩
  | markRunning | markError | patch =>
    cases h
    exact s.eased_rewrite fun _ => rfl
  | _ =>
    cases h
    exact ⟨rfl, fun _ ht _ => ht, fun _ ht => ht, fun _ a ha => ⟨a, ha, rfl⟩⟩

theorem eased_of_admitted {good : Statement → Prop} (hst : st.tokenless = true)
    {answer : Option st.Rows} (h : Admitted Statement.run good s st answer s') : Eased s s' := by
  cases h with
  | answered effect => exact eased_run hst effect
  | failed _ => exact s.eased_refl
  | lost _ effect => exact eased_run hst effect

/-! ## One statement -/

variable {id : Uuid} {N : Uuid → Prop} {m : Option Credential}

theorem Store.Among.signed (hs : s.Among id N) (jti : Uuid) (exp : ℕ) (nextId : Uuid) :
    Store.Among { s with issued := ⟨.modelRouter, id, jti, exp⟩ :: s.issued, nextId := nextId } id
      fun j => N j ∨ j = jti := by
  intro t ⟨hissued, hkind, hexp⟩ a ha
  obtain rfl | hissued := List.mem_cons.mp hissued
  · exact .inr (.inl ⟨rfl, .inr rfl⟩)
  · obtain hrevoked | ⟨hid, hN⟩ | hother := hs t ⟨hissued, hkind, hexp⟩ a ha
    · exact .inl hrevoked
    · exact .inr (.inl ⟨hid, .inl hN⟩)
    · exact .inr (.inr hother)

/-- Writing to the row of the agent itself says nothing of the tokens of others. -/
theorem Store.Among.rewrite (hs : s.Among id N) {f : Agent → Agent} {hf : ∀ a, (f a).id = a.id} :
    (s.rewrite id f hf).Among id N := by
  intro t ht a' ha'
  rw [agent?_rewrite, Option.map_eq_some_iff] at ha'
  obtain ⟨a, ha, rfl⟩ := ha'
  obtain hrevoked | hown | ⟨hne, hnamed⟩ := hs t ht a ha
  · exact .inl hrevoked
  · exact .inr (.inl hown)
  · have hid : a.id ≠ id := by
      rw [Table.key_of_get? ha]
      exact hne
    rw [if_neg hid]
    exact .inr (.inr ⟨hne, hnamed⟩)

theorem Store.stores_rewrite {f : Agent → Agent} {hf : ∀ a, (f a).id = a.id}
    (h : ∀ a, s.agent? id = some a → (f a).modelRouter = m) : (s.rewrite id f hf).Stores id m := by
  intro a' ha'
  rw [agent?_rewrite, Option.map_eq_some_iff] at ha'
  obtain ⟨a, ha, rfl⟩ := ha'
  rw [if_pos (Table.key_of_get? ha)]
  exact h a ha

theorem Store.Among.revoke (hs : s.Among id N) (jti : Uuid) :
    Store.Among { s with revoked := jti :: s.revoked } id fun j => N j ∧ j ≠ jti := by
  intro t ht a ha
  obtain hrevoked | ⟨hid, hN⟩ | hother := hs t ht a ha
  · exact .inl (List.mem_cons_of_mem _ hrevoked)
  · by_cases hj : t.jti = jti
    · exact .inl (List.mem_cons.mpr (.inl hj))
    · exact .inr (.inl ⟨hid, hN, hj⟩)
  · exact .inr (.inr hother)

/-! ## The programs -/

variable {good : Statement → Prop} {α : Type}

theorem keeps_tokenless {P : Store → Prop} (hP : ∀ s s', Eased s s' → P s → P s') {p : Handler α}
    (hp : Only (fun st => st.tokenless = true) p) : Keeps (Admitted Statement.run good) P p :=
  hp.keeps fun _ _ _ _ hs hst h => hP _ _ (eased_of_admitted hst h) hs

theorem only_ask {A : Statement → Prop} {st : Statement} (h : A st) : Only A (ask st) := only_query h

theorem only_best {A : Statement → Prop} {p : Handler Unit} (h : Only A p) : Only A (best p) :=
  only_tryCatch h fun _ => only_pure _

theorem always_best {P : Store → Prop} {p : Handler Unit}
    (hp : Keeps (Admitted Statement.run good) P p) (hs : P s) :
    Always (Admitted Statement.run good) (best p) (fun _ => P) (fun _ _ => False) s := by
  rw [best, always_tryCatch]
  exact (hp s hs).mono (fun _ _ h => h) fun _ _ h => h

/-- Docker calls, and the checks before them. -/
def Statement.docker : Statement → Bool
  | .inspect _ | .inspectStarted _ | .stopContainer _ | .removeContainer _ | .checkLimits _
  | .createContainer _ | .startContainer .. | .inspectCreated .. => true
  | _ => false

theorem tokenless_of_docker {st : Statement} (h : st.docker = true) : st.tokenless = true := by
  cases st <;> first | rfl | cases h

theorem only_stopAndRemove (agentId : String) :
    Only (fun st => st.docker = true) (stopAndRemoveContainer agentId) := by
  apply only_bind (only_ask (by rfl))
  intro info
  cases info with
  | none => exact only_throw _
  | some c => exact only_bind (only_best (only_ask (by rfl))) fun _ => only_ask (by rfl)

theorem only_readStartedAt (agentId : String) :
    Only (fun st => st.docker = true) (readStartedAt agentId) :=
  only_tryCatch (only_bind (only_ask (by rfl)) fun _ => only_pure _) fun _ => only_pure _

/-! ## Start -/

/-- Statements that leave a signed token in no row when they fail. -/
def Request.fatal : Request → Statement → Bool
  | .start _, st =>
    match st with
    | .mint .modelRouter _ | .randomUUID | .readScope _ | .readProfile _ | .inspect _
    | .removeContainer _ | .checkLimits _ | .createContainer _ | .startContainer .. | .inspectCreated .. | .installTools _
    | .storeToken .modelRouter .. => true
    | _ => false
  | .refresh .., st =>
    match st with
    | .mint .modelRouter _ | .storeToken .modelRouter .. | .revoke .modelRouter .. => true
    | _ => false
  | _, _ => false

abbrev Sure (q : Request) := Admitted Statement.run fun st => q.fatal st = false

/-- A statement that does not fail. -/
theorem always_sure {q : Request} {st : Statement} (hfatal : q.fatal st = true)
    {Q : st.Rows → Store → Prop} {E : Failure → Store → Prop}
    (h : ∀ c rows s', Statement.run s c st = .ok (rows, s') → Q rows s') :
    Always (Sure q) (ask st) Q E s := by
  apply always_query
  · intro rows s' hstep
    cases hstep with
    | answered effect => exact h _ _ _ effect
  · intro e s' hstep
    cases hstep with
    | failed hgood => cases hfatal.symm.trans hgood
    | lost hgood _ => cases hfatal.symm.trans hgood

theorem always_read {st : Statement} {r : st.Rows} (h : ∀ c, Statement.run s c st = .ok (r, s))
    {Q : st.Rows → Store → Prop} {E : Failure → Store → Prop} (hrows : Q r s) (herr : ∀ e, E e s) :
    Always (Admitted Statement.run good) (ask st) Q E s := by
  apply always_query
  · intro rows s' hstep
    cases hstep with
    | answered effect =>
      cases (h _).symm.trans effect
      exact hrows
  · intro e s' hstep
    cases hstep with
    | failed _ => exact herr e
    | lost _ effect =>
      cases (h _).symm.trans effect
      exact herr e

theorem Store.Among.none (hs : s.Among id fun _ => False) : s.Held := by
  intro t ht a ha
  obtain hrevoked | ⟨_, hN⟩ | ⟨_, hnamed⟩ := hs t ht a ha
  · exact .inl hrevoked
  · exact hN.elim
  · exact .inr hnamed

theorem held_eased (s s' : Store) (h : Eased s s') (hs : s.Held) : s'.Held := by
  intro t ht a' ha'
  obtain ⟨a, ha, hsame⟩ := h.rows t.agent a' ha'
  obtain hrevoked | ⟨c, hc, hjti⟩ := hs t (h.alive ht) a ha
  · exact .inl (h.revoked hrevoked)
  · exact .inr ⟨c, hsame.trans hc, hjti⟩

section Start

variable {P : Store → Prop} {start : Uuid} {E : Failure → Store → Prop}

/-- As `keeps_tokenless`, for one statement that does not fail. -/
theorem always_firm (hP : ∀ s s', Eased s s' → P s → P s') {st : Statement}
    (hst : st.tokenless = true) (hfatal : (Request.start start).fatal st = true) (hs : P s) :
    Always (Sure (.start start)) (ask st) (fun _ => P) E s :=
  always_sure hfatal fun _ _ _ effect => hP _ _ (eased_run hst effect) hs

theorem always_removeExisting (hP : ∀ s s', Eased s s' → P s → P s') (agentId : String) (hs : P s) :
    Always (Sure (.start start)) (removeExisting agentId) (fun _ => P) E s := by
  rw [removeExisting, always_tryCatch, stopAndRemoveContainer]
  apply always_then (fun _ => P) (always_firm hP rfl rfl hs)
  intro info s₁ hs₁
  cases info with
  | none =>
    rw [always_throw, if_pos rfl]
    exact hs₁
  | some c =>
    apply always_then (fun _ => P)
    · apply (always_best (keeps_tokenless hP (only_ask (by rfl))) hs₁).mono (fun _ _ h => h)
      exact fun _ _ h => h.elim
    · intro _ s₂ hs₂
      exact always_firm hP rfl rfl hs₂

theorem always_createAndStart (hP : ∀ s s', Eased s s' → P s → P s') (agentId : String) (hs : P s) :
    Always (Sure (.start start)) (createAndStartContainer agentId) (fun _ => P) E s := by
  apply always_then (fun _ => P) (always_removeExisting hP agentId hs)
  intro _ s₀ hs₀
  apply always_then (fun _ => P) (always_firm hP rfl rfl hs₀)
  intro _ s₁ hs₁
  apply always_then (fun _ => P) (always_firm hP rfl rfl hs₁)
  intro containerId s₂ hs₂
  apply always_then (fun _ => P) (always_firm hP rfl rfl hs₂)
  intro _ s₃ hs₃
  apply always_then (fun _ => P) (always_firm hP rfl rfl hs₃)
  exact fun _ _ h => h

theorem always_installTools (hP : ∀ s s', Eased s s' → P s → P s') (agent : Agent) (hs : P s) :
    Always (Sure (.start start)) (installRequiredTools agent) (fun _ => P) E s := by
  rw [installRequiredTools, always_tryCatch]
  exact always_firm hP rfl rfl hs

theorem always_readStartedAt (hP : ∀ s s', Eased s s' → P s → P s') (agentId : String) (hs : P s) :
    Always (Sure (.start start)) (readStartedAt agentId) (fun _ => P) E s := by
  rw [readStartedAt, always_tryCatch, always_bind]
  exact keeps_tokenless hP (only_ask (by rfl)) s hs

theorem always_storeAkm (hP : ∀ s s', Eased s s' → P s → P s') (id : Uuid)
    (minted : Option Credential) (hs : P s) :
    Always (Sure (.start start)) (storeMinted .akm id minted) (fun _ => P) E s := by
  cases minted with
  | none => exact hs
  | some credential =>
    exact (always_best (keeps_tokenless hP (only_ask (by rfl))) hs).mono (fun _ _ h => h)
      fun _ _ h => h.elim

/-- The model-router token of a start, signed but in no row yet. -/
def Unstored (id : Uuid) (minted : Option Credential) (s : Store) : Prop :=
  s.Among id fun j => ∃ c, minted = some c ∧ c.jti = j

theorem unstored_eased (id : Uuid) (minted : Option Credential) (s s' : Store) (h : Eased s s')
    (hs : Unstored id minted s) : Unstored id minted s' := h.among hs

theorem always_mintModelRouter (id : Uuid) (hs : s.Among id fun _ => False) :
    Always (Sure (.start start)) (mintToken cfg .modelRouter id) (Unstored id) E s := by
  have hnone : Unstored id none s := hs.mono fun _ h => h.elim
  rw [mintToken]
  apply always_ite
  · intro _
    rw [always_tryCatch]
    apply always_sure rfl
    intro c minted s' effect
    simp only [Statement.run] at effect
    split at effect
    · cases effect
      apply (hs.signed s.nextId (s.now + tokenLifetime) (s.nextId + 2)).mono
      rintro j (h | rfl)
      · exact h.elim
      · exact ⟨_, rfl, rfl⟩
    · cases effect
      exact hnone
  · exact fun _ => hnone

theorem always_storeModelRouter {id : Uuid} {minted : Option Credential} (hs : Unstored id minted s) :
    Always (Sure (.start start)) (storeMinted .modelRouter id minted) (fun _ => Store.Held) E s := by
  cases minted with
  | none =>
    apply Store.Among.none
    apply hs.mono
    rintro j ⟨c, hc, _⟩
    cases hc
  | some credential =>
    rw [storeMinted, best, always_tryCatch]
    apply always_sure rfl
    intro c _ s' effect
    cases effect
    apply (Store.Among.rewrite hs).held (m := some credential)
    · exact stores_rewrite fun _ _ => rfl
    · rintro j ⟨c, hc, hjti⟩
      cases hc
      exact ⟨_, rfl, hjti⟩

theorem always_launch {agent : Agent} (hs : s.Among agent.id fun _ => False) :
    Always (Sure (.start start)) (launch cfg agent) (fun _ => Store.Held) (fun _ => Store.Held) s := by
  have hmild : ∀ s s' : Store, Eased s s' → (s.Among agent.id fun _ => False) →
      s'.Among agent.id fun _ => False := fun _ _ h hs => h.among hs
  rw [launch]
  apply always_then fun (_ : Unit) (s : Store) => s.Among agent.id fun _ => False
  · apply (keeps_tokenless hmild (only_ask (by rfl)) s hs).mono (fun _ _ h => h)
    exact fun _ _ h => h.none
  intro _ s₁ hs₁
  apply always_then fun (_ : Option Credential) (s : Store) => s.Among agent.id fun _ => False
  · have hakm : Only (fun st => st.tokenless = true) (mintToken cfg .akm agent.id) :=
      only_ite (fun _ => only_tryCatch (only_ask (by rfl)) fun _ => only_pure _) fun _ => only_pure _
    apply (keeps_tokenless hmild hakm s₁ hs₁).mono (fun _ _ h => h)
    exact fun _ _ h => h.none
  intro akm s₂ hs₂
  apply always_then (Unstored agent.id) (always_mintModelRouter agent.id hs₂)
  intro minted s₃ hs₃
  have hun := unstored_eased agent.id minted
  apply always_then (fun _ => Unstored agent.id minted) (always_firm hun rfl rfl hs₃)
  intro workToken s₄ hs₄
  apply always_then (fun _ => Unstored agent.id minted) (always_firm hun rfl rfl hs₄)
  intro _ s₄' hs₄'
  apply always_then (fun _ => Unstored agent.id minted) (always_firm hun rfl rfl hs₄')
  intro _ s₅ hs₅
  apply always_then (fun _ => Unstored agent.id minted) (always_createAndStart hun _ hs₅)
  intro containerId s₆ hs₆
  apply always_then (fun _ => Unstored agent.id minted) (always_readStartedAt hun _ hs₆)
  intro startedAt s₇ hs₇
  apply always_then (fun _ => Unstored agent.id minted) (always_installTools hun _ hs₇)
  intro _ s₈ hs₈
  apply always_then (fun _ => Unstored agent.id minted) (always_storeAkm hun _ _ hs₈)
  intro _ s₉ hs₉
  apply always_then (fun _ => Store.Held) (always_storeModelRouter hs₉)
  have hrest : Only (fun st => st.tokenless = true) (do
      ask (.markRunning agent.id containerId workToken)
      best (ask (.insertSession agent.id startedAt))
      pure (Response.status 200)) :=
    only_bind (only_ask (by rfl)) fun _ => only_bind (only_best (only_ask (by rfl))) fun _ => only_pure _
  exact fun _ s hs => keeps_tokenless held_eased hrest s hs

theorem tokenless_failStart (id : Uuid) (e : Failure) :
    Only (fun st => st.tokenless = true) (failStart id e) := by
  cases e with
  | _ => exact only_bind (only_best (only_ask (by rfl))) fun _ => only_pure _

theorem held_start {id : Uuid} (hs : s.Held) (hid : s.Settled id) :
    Always (Sure (.start id)) (Agents.start cfg id) (fun _ => Store.Held) (fun _ => Store.Held) s := by
  rw [Agents.start, always_tryCatch]
  have hfail : ∀ e s, s.Held → Always (Sure (.start id)) (failStart id e) (fun _ => Store.Held)
      (fun _ => Store.Held) s := fun e s hs => keeps_tokenless held_eased (tokenless_failStart id e) s hs
  apply always_ite
  · exact fun _ => hs
  · intro _
    rw [always_bind]
    apply always_read (r := s.agent? id) fun _ => rfl
    · cases hagent : s.agent? id with
      | none => exact hs
      | some a =>
        have haid : a.id = id := Table.key_of_get? hagent
        subst haid
        apply (always_launch (hs.settled hid)).mono (fun _ _ h => h)
        exact hfail
    · exact fun e => hfail e s hs

end Start

/-! ## The other requests -/

section Stop

variable {q : Request}

/-- The tokens of an agent after its token is revoked, or is kept for that. -/
def Revoked (id : Uuid) (kept : Bool) (s : Store) : Prop :=
  s.Held ∧ (kept = false → s.Among id fun _ => False)

theorem revoked_eased (id : Uuid) (kept : Bool) (s s' : Store) (h : Eased s s')
    (hs : Revoked id kept s) : Revoked id kept s' :=
  ⟨held_eased s s' h hs.1, fun hkept => h.among (hs.2 hkept)⟩

theorem only_revokeToken {kind : TokenKind} (agent : Agent) :
    Only (fun st => st.tokenless = true) (revokeToken cfg kind agent) := by
  rw [revokeToken]
  split
  · apply only_ite
    · intro _
      apply only_tryCatch
      · exact only_bind (only_ask (by rfl)) fun _ => only_pure _
      · exact fun _ => only_pure _
    · exact fun _ => only_pure _
  · exact only_pure _

theorem always_revokeModelRouter (hcfg : cfg.modelRouter = true) {agent : Agent} (hs : s.Held)
    (hN : s.Among agent.id (named agent)) {E : Failure → Store → Prop} :
    Always (Admitted Statement.run good) (revokeToken cfg .modelRouter agent) (Revoked agent.id) E s := by
  have hcredential : agent.credential .modelRouter = agent.modelRouter := rfl
  rw [revokeToken, hcredential]
  cases hm : agent.modelRouter with
  | none =>
    refine ⟨hs, fun _ => hN.mono ?_⟩
    rintro j ⟨c, hc, _⟩
    cases hm.symm.trans hc
  | some credential =>
    have hconfigured : cfg.configured .modelRouter = true := hcfg
    have hquiet : (Statement.revoke .modelRouter agent.agentId credential.jti).tokenless = true := rfl
    dsimp only
    rw [if_pos hconfigured, always_tryCatch, always_bind]
    apply always_query
    · intro _ s' h
      cases h with
      | answered effect =>
        have heased := eased_run hquiet effect
        cases effect
        refine ⟨held_eased _ _ heased hs, fun _ => (hN.revoke credential.jti).mono ?_⟩
        rintro j ⟨⟨c, hc, hjti⟩, hne⟩
        cases hm.symm.trans hc
        exact hne hjti.symm
    · intro e s' h
      have heased := eased_of_admitted hquiet h
      exact ⟨held_eased _ _ heased hs, fun h => by cases h⟩

theorem only_removeOrRecord (agent : Agent) :
    Only (fun st => st.tokenless = true) (removeOrRecord agent) :=
  only_tryCatch ((only_stopAndRemove _).mono fun _ => tokenless_of_docker) fun _ =>
    only_bind (only_best (only_ask (by rfl))) fun _ => only_throw _

theorem always_markStopped {id : Uuid} {kept : Bool} (keepAkm : Bool) (hs : Revoked id kept s) :
    Always (Admitted Statement.run good) (ask (.markStopped id keepAkm kept)) (fun _ => Store.Held)
      (fun _ => Store.Held) s := by
  have heffect : ∀ c rows s', Statement.run s c (.markStopped id keepAkm kept) = .ok (rows, s') →
      s'.Held := by
    intro c rows s' effect
    cases effect
    cases kept with
    | true =>
      exact held_eased _ _ (s.eased_rewrite fun _ => rfl) hs.1
    | false =>
      exact (Store.Among.rewrite (hs.2 rfl)).none
  apply always_query
  · intro _ s' h
    cases h with
    | answered effect => exact heffect _ _ _ effect
  · intro e s' h
    cases h with
    | failed _ => exact hs.1
    | lost _ effect => exact heffect _ _ _ effect

/-- What a request may go on with once it has read the row of its agent. -/
theorem always_selectAgent {f : Option Agent → Handler Response} {id : Uuid} (hs : s.Held)
    (hnone : Always (Admitted Statement.run good) (f none) (fun _ => Store.Held)
      (fun _ => Store.Held) s)
    (hsome : ∀ agent, s.Among agent.id (named agent) → s.Stores agent.id agent.modelRouter →
      Always (Admitted Statement.run good) (f (some agent)) (fun _ => Store.Held)
        (fun _ => Store.Held) s) :
    Always (Admitted Statement.run good) (ask (.selectAgent id) >>= f) (fun _ => Store.Held)
      (fun _ => Store.Held) s := by
  rw [always_bind]
  apply always_read (r := s.agent? id) fun _ => rfl
  · cases hagent : s.agent? id with
    | none => exact hnone
    | some agent =>
      have hid : agent.id = id := Table.key_of_get? hagent
      subst hid
      apply hsome agent (hs.among hagent)
      intro a ha
      cases hagent.symm.trans ha
      rfl
  · exact fun _ => hs

/-- What an agent's tokens are known by while a request keeps its row in mind. -/
def Known (agent : Agent) (s : Store) : Prop := s.Held ∧ s.Among agent.id (named agent)

theorem known_eased (agent : Agent) (s s' : Store) (h : Eased s s') (hs : Known agent s) :
    Known agent s' := ⟨held_eased s s' h hs.1, h.among hs.2⟩

theorem held_stop (hcfg : cfg.modelRouter = true) {id : Uuid} (hs : s.Held) :
    Always (Admitted Statement.run good) (stop cfg id) (fun _ => Store.Held) (fun _ => Store.Held) s := by
  rw [stop, always_tryCatch]
  apply always_selectAgent hs
  · exact hs
  intro agent hN _
  apply always_then fun (_ : Bool) => Known agent
  · apply (keeps_tokenless (known_eased agent) (only_revokeToken agent) s ⟨hs, hN⟩).mono (fun _ _ h => h)
    exact fun _ _ h => h.1
  intro akmKept s₁ hs₁
  apply always_then (Revoked agent.id) (always_revokeModelRouter hcfg hs₁.1 hs₁.2)
  intro kept s₂ hs₂
  have hkeep := revoked_eased agent.id kept
  apply always_then fun (_ : Unit) => Revoked agent.id kept
  · apply (keeps_tokenless hkeep (only_removeOrRecord agent) s₂ hs₂).mono (fun _ _ h => h)
    exact fun _ _ h => h.1
  intro _ s₃ hs₃
  apply always_then fun (_ : Unit) => Revoked agent.id kept
  · apply (always_best (keeps_tokenless hkeep (only_ask (by rfl))) hs₃).mono (fun _ _ h => h)
    exact fun _ _ h => h.elim
  intro _ s₄ hs₄
  apply always_then fun (_ : Unit) => Revoked agent.id kept
  · apply (always_best (keeps_tokenless hkeep (only_ask (by rfl))) hs₄).mono (fun _ _ h => h)
    exact fun _ _ h => h.elim
  intro _ s₅ hs₅
  exact always_then (fun _ => Store.Held) (always_markStopped akmKept hs₅) fun _ _ h => h

theorem only_delete (id : Uuid) : Only (fun st => st.tokenless = true) (delete cfg id) := by
  apply only_tryCatch
  · apply only_bind (only_ask (by rfl))
    intro agent
    cases agent with
    | none => exact only_pure _
    | some agent =>
      apply only_bind (only_revokeToken agent)
      intro _
      apply only_bind (only_revokeToken agent)
      intro _
      apply only_bind
      · apply only_ite
        · exact fun _ => only_best ((only_stopAndRemove _).mono fun _ => tokenless_of_docker)
        · exact fun _ => only_pure _
      · exact fun _ => only_bind (only_ask (by rfl)) fun _ => only_pure _
  · exact fun _ => only_pure _

theorem only_observe (agentId : String) : Only (fun st => st.docker = true) (observe agentId) :=
  only_tryCatch (only_bind (only_ask (by rfl)) fun _ => only_pure _) fun _ => only_pure _

theorem only_reconcile (agents : List Agent) (r : ReconcileResult) :
    Only (fun st => st.tokenless = true) (reconcileAgentStatuses agents r) := by
  induction agents generalizing r with
  | nil => exact only_pure _
  | cons agent agents ih =>
    apply only_bind ((only_observe _).mono fun _ => tokenless_of_docker)
    intro seen
    apply only_bind
    · cases reconcileRow agent seen with
      | none => exact only_pure _
      | some p => exact only_ask (by rfl)
    · exact fun _ => ih _

theorem only_pass : Only (fun st => st.tokenless = true) runReconcilePass := by
  apply only_tryCatch
  · apply only_bind (only_ask (by rfl))
    intro agents
    apply only_bind (only_reconcile agents _)
    exact fun _ => only_bind (only_best (only_ask (by rfl))) fun _ => only_pure _
  · exact fun _ => only_pure _

end Stop

section Refresh

variable {sub : String ⊕ Uuid} {secret : Uuid}

theorem always_revokeReplaced {agent : Agent} {credential : Credential}
    (hN : s.Among agent.id fun j => named agent j ∨ j = credential.jti)
    (hstores : s.Stores agent.id (some credential)) :
    Always (Sure (.refresh sub secret)) (revokeReplaced agent) (fun _ => Store.Held)
      (fun _ => Store.Held) s := by
  rw [revokeReplaced]
  cases hm : agent.modelRouter with
  | none =>
    apply hN.held hstores
    rintro j (⟨c, hc, _⟩ | rfl)
    · cases hm.symm.trans hc
    · exact ⟨credential, rfl, rfl⟩
  | some replaced =>
    dsimp only
    rw [best, always_tryCatch]
    apply always_sure rfl
    intro c _ s' effect
    have hquiet : (Statement.revoke .modelRouter agent.agentId replaced.jti).tokenless = true := rfl
    have heased := eased_run hquiet effect
    cases effect
    apply (hN.revoke replaced.jti).held (heased.stores hstores)
    rintro j ⟨⟨c, hc, hjti⟩ | rfl, hne⟩
    · cases hm.symm.trans hc
      exact absurd hjti.symm hne
    · exact ⟨credential, rfl, rfl⟩

theorem held_refresh (hs : s.Held) :
    Always (Sure (.refresh sub secret)) (refresh sub secret) (fun _ => Store.Held)
      (fun _ => Store.Held) s := by
  rw [refresh, always_tryCatch, always_bind]
  apply always_read fun _ => rfl
  · cases hfound : s.agents.rows.find? fun a =>
        (sub = .inl a.agentId || sub = .inr a.id) && a.status = .running &&
          a.modelRouter.any fun c => c.refreshSecret = some secret with
    | none => exact hs
    | some agent =>
      have hagent : s.agent? agent.id = some agent :=
        Table.mem_iff_get?.mp (List.mem_of_find?_eq_some hfound)
      dsimp only
      rw [always_bind]
      apply always_sure rfl
      intro c minted s₁ effect
      simp only [Statement.run] at effect
      split at effect
      · cases effect
        have hN := (hs.among hagent).signed s.nextId (s.now + tokenLifetime) (s.nextId + 2)
        dsimp only
        rw [always_bind]
        apply always_sure rfl
        intro c _ s₂ effect
        cases effect
        exact always_then (fun _ => Store.Held)
          (always_revokeReplaced hN.rewrite (stores_rewrite fun _ _ => rfl)) fun _ _ h => h
      · cases effect
        exact hs
  · exact fun _ => hs

end Refresh

/-! ## No model-router -/

structure Unused (s : Store) : Prop where
  issued : ∀ t ∈ s.issued, t.kind ≠ .modelRouter
  rows : ∀ a ∈ s.agents.rows, a.modelRouter = none

theorem Unused.held (h : Unused s) : s.Held := fun t ht => absurd ht.2.1 (h.issued t ht.1)

theorem Unused.eased (h : Unused s) (hs : Eased s s') : Unused s' where
  issued t ht hkind := h.issued t (hs.issued t ht hkind) hkind
  rows a' ha' := by
    obtain ⟨a, ha, hsame⟩ := hs.rows a'.id a' (Table.mem_iff_get?.mp ha')
    exact hsame.trans (h.rows a (Table.mem_of_get? ha))

def Statement.routerless : Statement → Bool
  | .mint .modelRouter _ | .storeToken .modelRouter .. => false
  | _ => true

theorem unused_run (hst : st.routerless = true) {rows : st.Rows}
    (h : Statement.run s c st = .ok (rows, s')) (hs : Unused s) : Unused s' := by
  have htokenless : st.tokenless = true → Unused s' := fun hst => hs.eased (eased_run hst h)
  cases st with
  | markStopped id keepAkm kept =>
    cases h
    refine ⟨hs.issued, fun a' ha' => ?_⟩
    obtain ⟨a, ha, ⟨_, rfl⟩ | ⟨_, i, _, _, rfl⟩⟩ := Table.mem_patchRows ha'
    · exact hs.rows a' ha
    · have hnone := hs.rows a ha
      cases kept
      · rfl
      · exact hnone
  | mint kind id =>
    cases kind with
    | akm => exact htokenless rfl
    | modelRouter => cases hst
  | storeToken kind id credential =>
    cases kind with
    | akm => exact htokenless rfl
    | modelRouter => cases hst
  | _ => exact htokenless rfl

theorem keeps_routerless {p : Handler α} (hp : Only (fun st => st.routerless = true) p) :
    Keeps (Admitted Statement.run good) Unused p := by
  apply hp.keeps
  intro s st answer s' hs hst h
  cases h with
  | answered effect => exact unused_run hst effect hs
  | failed _ => exact hs
  | lost _ effect => exact unused_run hst effect hs

theorem routerless_of_tokenless (h : st.tokenless = true) : st.routerless = true := by
  cases st with
  | mint kind id => cases kind with
    | akm => rfl
    | modelRouter => cases h
  | storeToken kind id credential => cases kind with
    | akm => rfl
    | modelRouter => cases h
  | _ => rfl

theorem only_routerless {p : Handler α} (hp : Only (fun st => st.tokenless = true) p) :
    Only (fun st => st.routerless = true) p := hp.mono fun _ => routerless_of_tokenless

theorem only_removeExisting (agentId : String) :
    Only (fun st => st.docker = true) (removeExisting agentId) := by
  apply only_tryCatch (only_stopAndRemove agentId)
  exact fun _ => only_ite (fun _ => only_pure _) fun _ => only_throw _

theorem only_createAndStart (agentId : String) :
    Only (fun st => st.docker = true) (createAndStartContainer agentId) := by
  apply only_bind (only_removeExisting agentId)
  intro _
  apply only_bind (only_ask (by rfl))
  intro _
  apply only_bind (only_ask (by rfl))
  intro containerId
  exact only_bind (only_ask (by rfl)) fun _ => only_bind (only_ask (by rfl)) fun _ => only_pure _

theorem routerless_launch (hcfg : cfg.modelRouter = false) (agent : Agent) :
    Only (fun st => st.routerless = true) (launch cfg agent) := by
  have hdocker : ∀ {α : Type} {p : Handler α}, Only (fun st => st.docker = true) p →
      Only (fun st => st.routerless = true) p := by
    intro α p hp
    exact hp.mono fun _ h => routerless_of_tokenless (tokenless_of_docker h)
  have hmint : mintToken cfg .modelRouter agent.id = pure none := by
    rw [mintToken, if_neg]
    rw [Config.configured, hcfg]
    decide
  rw [launch, hmint]
  apply only_bind (only_ask (by rfl))
  intro _
  apply only_bind
  · exact only_ite (fun _ => only_tryCatch (only_ask (by rfl)) fun _ => only_pure _) fun _ => only_pure _
  intro akm
  change Only _ (ask Statement.randomUUID >>= _)
  apply only_bind (only_ask (by rfl))
  intro workToken
  apply only_bind (only_ask (by rfl))
  intro _
  apply only_bind (only_ask (by rfl))
  intro _
  apply only_bind (hdocker (only_createAndStart _))
  intro containerId
  apply only_bind (hdocker (only_readStartedAt _))
  intro startedAt
  apply only_bind
  · apply only_tryCatch (only_ask (by rfl))
    exact fun _ => only_bind (only_best (hdocker (only_stopAndRemove _))) fun _ => only_throw _
  intro _
  apply only_bind
  · cases akm with
    | none => exact only_pure _
    | some credential => exact only_best (only_ask (by rfl))
  intro _
  apply only_bind (only_pure _)
  intro _
  apply only_bind (only_ask (by rfl))
  exact fun _ => only_bind (only_best (only_ask (by rfl))) fun _ => only_pure _

theorem unused_start (hcfg : cfg.modelRouter = false) (id : Uuid) :
    Keeps (Admitted Statement.run good) Unused (Agents.start cfg id) := by
  apply keeps_routerless
  apply only_tryCatch
  · apply only_ite
    · exact fun _ => only_pure _
    · intro _
      apply only_bind (only_ask (by rfl))
      intro agent
      cases agent with
      | none => exact only_pure _
      | some agent => exact routerless_launch hcfg agent
  · exact fun e => only_routerless (tokenless_failStart id e)

theorem unused_stop (id : Uuid) : Keeps (Admitted Statement.run good) Unused (stop cfg id) := by
  apply keeps_routerless
  apply only_tryCatch
  · apply only_bind (only_ask (by rfl))
    intro agent
    cases agent with
    | none => exact only_pure _
    | some agent =>
      apply only_bind (only_routerless (only_revokeToken agent))
      intro akmKept
      apply only_bind (only_routerless (only_revokeToken agent))
      intro kept
      apply only_bind (only_routerless (only_removeOrRecord agent))
      intro _
      apply only_bind (only_best (only_ask (by rfl)))
      intro _
      apply only_bind (only_best (only_ask (by rfl)))
      exact fun _ => only_bind (only_ask (by rfl)) fun _ => only_pure _
  · exact fun _ => only_pure _

theorem unused_refresh {sub : String ⊕ Uuid} {secret : Uuid} (hs : Unused s) :
    Always (Admitted Statement.run good) (refresh sub secret) (fun _ => Unused) (fun _ => Unused) s := by
  rw [refresh, always_tryCatch, always_bind]
  apply always_read fun _ => rfl
  · cases hfound : s.agents.rows.find? fun a =>
        (sub = .inl a.agentId || sub = .inr a.id) && a.status = .running &&
          a.modelRouter.any fun c => c.refreshSecret = some secret with
    | none => exact hs
    | some agent =>
      have hnone := hs.rows agent (List.mem_of_find?_eq_some hfound)
      have hany := List.find?_some hfound
      rw [hnone] at hany
      simp at hany
  · exact fun _ => hs

/-! ## All runs -/

variable (cfg) in
/-- A start finds no live token of its agent that is not revoked, and no statement fails after
which a signed token is stored nowhere. -/
def Tidy (s : Store) : Call Choice Failure Request Surroundings → Prop
  | .request q pattern => cfg.modelRouter = true →
    (∀ id, q = .start id → s.Settled id) ∧
      ∀ st ∈ ((service cfg).serve {} s q pattern).1.failures, q.fatal st = false
  | .environment _ => True

variable (cfg) in
def Kept (s : Store) : Prop := if cfg.modelRouter then s.Held else Unused s

theorem kept_of_serve {P : Store → Prop} {q : Request} {pattern : List (Outcome Choice Failure)}
    (h : Always (Sure q) (q.handler cfg) (fun _ => P) (fun _ => P) s)
    (hfatal : ∀ st ∈ ((service cfg).serve {} s q pattern).1.failures, q.fatal st = false) :
    P ((service cfg).serve {} s q pattern).1.store :=
  Service.serve_of_always (V := service cfg) h hfatal

theorem held_serve (hcfg : cfg.modelRouter = true) {q : Request}
    {pattern : List (Outcome Choice Failure)} (hs : s.Held) (hok : Tidy cfg s (.request q pattern)) :
    ((service cfg).serve {} s q pattern).1.store.Held := by
  obtain ⟨hsettled, hfatal⟩ := hok hcfg
  apply kept_of_serve _ hfatal
  cases q with
  | start id => exact held_start hs (hsettled id rfl)
  | stop id => exact held_stop hcfg hs
  | delete id => exact keeps_tokenless held_eased (only_delete id) s hs
  | refresh sub secret => exact held_refresh hs
  | pass => exact keeps_tokenless held_eased only_pass s hs

theorem unused_serve (hcfg : cfg.modelRouter = false) {q : Request}
    {pattern : List (Outcome Choice Failure)} (hs : Unused s) :
    Unused ((service cfg).serve {} s q pattern).1.store := by
  have hkeeps : (q.handler cfg).Always (Admitted Statement.run fun _ => True) (fun _ => Unused)
      (fun _ => Unused) s := by
    cases q with
    | start id => exact unused_start hcfg id s hs
    | stop id => exact unused_stop id s hs
    | delete id => exact keeps_routerless (only_routerless (only_delete id)) s hs
    | refresh sub secret => exact unused_refresh hs
    | pass => exact keeps_routerless (only_routerless only_pass) s hs
  exact Service.serve_of_always (V := service cfg) hkeeps fun _ _ => trivial

theorem kept_environment {x : Surroundings} (hx : x.apply s = some s') (hs : Kept cfg s) :
    Kept cfg s' := by
  have hheld : s.Held → s'.Held := by
    intro hs
    cases x with
    | tick d =>
      cases hx
      intro t ⟨hissued, hkind, hexp⟩
      apply hs t ⟨hissued, hkind, ?_⟩
      change s.now + d < t.exp at hexp
      omega
    | docker agentId container =>
      simp only [Surroundings.apply] at hx
      split at hx
      · cases hx
        exact hs
      · cases hx
  have hunused : Unused s → Unused s' := by
    intro hs
    cases x with
    | tick d =>
      cases hx
      exact ⟨hs.issued, hs.rows⟩
    | docker agentId container =>
      simp only [Surroundings.apply] at hx
      split at hx
      · cases hx
        exact ⟨hs.issued, hs.rows⟩
      · cases hx
  unfold Kept at hs ⊢
  split
  · exact hheld (by rwa [if_pos ‹_›] at hs)
  · exact hunused (by rwa [if_neg ‹_›] at hs)

theorem kept_of_reachable (h : ((service cfg).serial {}).ReachableIf (Tidy cfg) s) : Kept cfg s := by
  apply h.invariant
  · intro s hs
    have hissued : ∀ t, t ∉ s.issued := by
      rw [hs.issued]
      exact fun _ => List.not_mem_nil
    unfold Kept
    split
    · exact fun t ht => absurd ht.1 (hissued t)
    · refine ⟨fun t ht => absurd ht (hissued t), fun a ha => ?_⟩
      have hcreated := of_decide_eq_true (hs.agents a ha)
      rw [hcreated]
  · intro s call s' hs hok hstep
    cases call with
    | environment x => exact kept_environment hstep hs
    | request q pattern =>
      cases hstep
      unfold Kept at hs ⊢
      cases hcfg : cfg.modelRouter with
      | true =>
        rw [hcfg] at hs
        exact held_serve hcfg hs hok
      | false =>
        rw [hcfg] at hs
        exact unused_serve hcfg hs

def restarted : List (Call Choice Failure Request Surroundings) :=
  [.request (.start 1) [], .request (.start 1) []]

def restartedStore : Store := ((service {}).serial {}).after (oneAgent none) restarted

end Hill90.Agents
