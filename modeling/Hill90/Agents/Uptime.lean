import Hill90.Agents.Sighting

/-! # The sessions of an agent

Sessions are opened by a start and closed by a stop or by the sweep of a pass.  A start does
not look whether one is open, and a promotion opens none.
-/

namespace Hill90.Agents

open Chat (Uuid Failure)
open Program

def Session.openOf (id : Uuid) (x : Session) : Bool := x.agentId = id && x.stoppedAt.isNone

def Session.Before (x y : Session) : Prop := ∃ t, x.stoppedAt = some t ∧ t ≤ y.startedAt

def Store.openCount (s : Store) (id : Uuid) : ℕ := s.sessions.count (Session.openOf id)

structure Accounted (s : Store) : Prop where
  fresh : ∀ x ∈ s.sessions.rows, x.id < s.nextId
  started : ∀ x ∈ s.sessions.rows, x.startedAt ≤ s.now
  stopped : ∀ x ∈ s.sessions.rows, ∀ t, x.stoppedAt = some t → t ≤ s.now
  finished : ∀ a ∈ s.agents.rows, ∀ t, a.containerFinishedAt = some t → t ≤ s.now
  ended : ∀ agentId c, s.containers agentId = some c → c.ended s.now = true
  apart : ∀ x ∈ s.sessions.rows, ∀ y ∈ s.sessions.rows, x.agentId = y.agentId → x.id ≠ y.id →
    x.Before y ∨ y.Before x

/-- Each running agent, but perhaps one, has one open session. -/
def Tracked (s : Store) (except : Uuid → Prop) : Prop :=
  ∀ id a, s.agent? id = some a → a.status = .running → ¬except id → s.openCount id = 1

structure Books (s : Store) : Prop where
  accounted : Accounted s
  tracked : Tracked s fun _ => False

structure Quiet (s s' : Store) : Prop where
  sessions : s'.sessions = s.sessions
  now : s'.now = s.now
  nextId : s.nextId ≤ s'.nextId
  rows : ∀ id a', s'.agent? id = some a' → ∃ a, s.agent? id = some a ∧
    (a'.status = .running → a.status = .running) ∧
    (a'.containerFinishedAt = none ∨ a'.containerFinishedAt = a.containerFinishedAt)
  ended : (∀ agentId c, s.containers agentId = some c → c.ended s.now = true) →
    ∀ agentId c, s'.containers agentId = some c → c.ended s'.now = true

variable {cfg : Config} {s s' : Store} {id : Uuid}

theorem Quiet.accounted (h : Quiet s s') (hs : Accounted s) : Accounted s' where
  fresh x hx := by
    rw [h.sessions] at hx
    exact Nat.lt_of_lt_of_le (hs.fresh x hx) h.nextId
  started x hx := by
    rw [h.sessions] at hx
    rw [h.now]
    exact hs.started x hx
  stopped x hx := by
    rw [h.sessions] at hx
    rw [h.now]
    exact hs.stopped x hx
  finished a' ha' t ht := by
    obtain ⟨a, ha, _, hnone | hsame⟩ := h.rows a'.id a' (Table.mem_iff_get?.mp ha')
    · cases hnone.symm.trans ht
    · rw [h.now]
      exact hs.finished a (Table.mem_of_get? ha) t (hsame.symm.trans ht)
  ended := h.ended hs.ended
  apart := by
    rw [h.sessions]
    exact hs.apart

theorem Quiet.openCount (h : Quiet s s') (id : Uuid) : s'.openCount id = s.openCount id := by
  rw [Store.openCount, Store.openCount, h.sessions]

theorem Quiet.tracked {except : Uuid → Prop} (h : Quiet s s') (hs : Tracked s except) :
    Tracked s' except := by
  intro id a' ha' hrunning hexcept
  obtain ⟨a, ha, hstatus, _⟩ := h.rows id a' ha'
  rw [h.openCount]
  exact hs id a ha (hstatus hrunning) hexcept

theorem Quiet.books (h : Quiet s s') (hs : Books s) : Books s' :=
  ⟨h.accounted hs.accounted, h.tracked hs.tracked⟩

theorem quiet_refl (s : Store) : Quiet s s :=
  ⟨rfl, rfl, Nat.le_refl _, fun _ a ha => ⟨a, ha, id, .inr rfl⟩, id⟩

theorem quiet_rewrite (s : Store) {rid : Uuid} {f : Agent → Agent} {hf : ∀ a, (f a).id = a.id}
    (hstatus : ∀ a, (f a).status = .running → a.status = .running)
    (hfinished : ∀ a, (f a).containerFinishedAt = a.containerFinishedAt) :
    Quiet s (s.rewrite rid f hf) := by
  refine ⟨rfl, rfl, Nat.le_refl _, fun id a' ha' => ?_, id⟩
  rw [Store.agent?_rewrite, Option.map_eq_some_iff] at ha'
  obtain ⟨a, ha, rfl⟩ := ha'
  refine ⟨a, ha, ?_⟩
  split
  · exact ⟨hstatus a, .inr (hfinished a)⟩
  · exact ⟨fun h => h, .inr rfl⟩

theorem quiet_setContainer (s : Store) {agentId : String} {c : Option Container} {nextId : Uuid}
    (hnext : s.nextId ≤ nextId) (hc : ∀ c', c = some c' → c'.ended s.now = true) :
    Quiet s { s.setContainer agentId c with nextId := nextId } := by
  refine ⟨rfl, rfl, hnext, fun _ a ha => ⟨a, ha, id, .inr rfl⟩, fun hs name c' h => ?_⟩
  change Function.update s.containers agentId c name = some c' at h
  rw [Function.update_apply] at h
  split at h
  · exact hc c' h
  · exact hs name c' h

def Statement.quiet : Statement → Bool
  | .insertSession .. | .closeSessions _ | .markRunning .. | .patch _ | .sweepSessions
  | .deleteAgent _ => false
  | _ => true

theorem quiet_run {c : Choice} {st : Statement} (hst : st.quiet = true) {rows : st.Rows}
    (h : Statement.run s c st = .ok (rows, s')) : Quiet s s' := by
  cases st with
  | insertSession | closeSessions | markRunning | patch | sweepSessions | deleteAgent => cases hst
  | stopContainer agentId =>
    simp only [Statement.run, Store.withContainer] at h
    split at h
    · cases h
      apply quiet_setContainer s (Nat.le_refl _)
      intro c' hc'
      cases hc'
      exact decide_eq_true (Nat.le_refl s.now)
    · cases h
  | removeContainer agentId =>
    simp only [Statement.run, Store.withContainer] at h
    split at h
    · cases h
      exact quiet_setContainer s (Nat.le_refl _) fun c' hc' => by cases hc'
    · cases h
  | createContainer agentId =>
    simp only [Statement.run] at h
    split at h
    · cases h
    · cases h
      apply quiet_setContainer s (Nat.le_succ _)
      intro c' hc'
      cases hc'
      rfl
  | startContainer agentId containerId =>
    simp only [Statement.run] at h
    split at h
    · split at h
      · cases h
        apply quiet_setContainer s (Nat.le_refl _)
        intro c' hc'
        cases hc'
        rfl
      · cases h
    · cases h
  | inspectCreated agentId containerId =>
    simp only [Statement.run] at h
    split at h
    · split at h
      · cases h
        exact quiet_refl s
      · cases h
    · cases h
  | mint kind rid =>
    simp only [Statement.run] at h
    split at h
    · cases h
      exact ⟨rfl, rfl, Nat.le_add_right _ _, fun _ a ha => ⟨a, ha, id, .inr rfl⟩, id⟩
    · cases h
      exact quiet_refl s
  | randomUUID =>
    cases h
    exact ⟨rfl, rfl, Nat.le_add_right _ _, fun _ a ha => ⟨a, ha, id, .inr rfl⟩, id⟩
  | storeToken kind rid credential =>
    cases h
    apply quiet_rewrite s
    · intro a
      cases kind <;> exact id
    · intro a
      cases kind <;> rfl
  | markError rid detail =>
    cases h
    exact quiet_rewrite s (fun a hrunning => by cases hrunning) fun _ => rfl
  | markStopped rid keepAkm kept =>
    cases h
    exact quiet_rewrite s (fun a hrunning => by cases hrunning) fun _ => rfl
  | revoke kind agentId jti =>
    cases h
    exact ⟨rfl, rfl, Nat.le_refl _, fun _ a ha => ⟨a, ha, id, .inr rfl⟩, id⟩
  | _ =>
    cases h
    exact quiet_refl s

def Statement.writes : Statement → Bool
  | .storeToken .. | .markRunning .. | .markError .. | .markStopped .. | .insertSession ..
  | .closeMessages _ | .closeSessions _ | .patch _ | .sweepSessions | .deleteAgent _ => true
  | _ => false

abbrev Written := Admitted Statement.run fun st => st.writes = false

theorem quiet_written {st : Statement} (hst : st.quiet = true) {answer : Option st.Rows}
    (h : Written s st answer s') : Quiet s s' := by
  cases h with
  | answered effect => exact quiet_run hst effect
  | failed _ => exact quiet_refl s
  | lost _ effect => exact quiet_run hst effect

theorem keeps_quiet {α : Type} {P : Store → Prop} (hP : ∀ s s', Quiet s s' → P s → P s')
    {p : Handler α} (hp : Only (fun st => st.quiet = true) p) : Keeps Written P p :=
  hp.keeps fun _ _ _ _ hs hst h => hP _ _ (quiet_written hst h) hs

theorem quiet_of_docker {st : Statement} (h : st.docker = true) : st.quiet = true := by
  cases st <;> first | rfl | cases h

/-- A write that does not fail. -/
theorem always_write {st : Statement} (hst : st.writes = true) {Q : st.Rows → Store → Prop}
    {E : Failure → Store → Prop}
    (h : ∀ c rows s', Statement.run s c st = .ok (rows, s') → Q rows s') :
    Always Written (ask st) Q E s := by
  apply always_query
  · intro rows s' hstep
    cases hstep with
    | answered effect => exact h _ _ _ effect
  · intro e s' hstep
    cases hstep with
    | failed hgood => cases hst.symm.trans hgood
    | lost hgood _ => cases hst.symm.trans hgood

/-! ## One statement -/

theorem Session.openOf_iff {x : Session} : x.openOf id = true ↔ x.agentId = id ∧ x.stoppedAt = none := by
  simp [Session.openOf]

theorem Accounted.closeWhere (hs : Accounted s) {p : Session → Bool} {f : Session → Session}
    {hf : ∀ x, (f x).id = x.id}
    (hclose : ∀ x ∈ s.sessions.rows, (f x).agentId = x.agentId ∧ (f x).startedAt = x.startedAt ∧
      ∃ t, (f x).stoppedAt = some t ∧ t ≤ s.now) : Accounted (s.closeWhere p f hf) := by
  have hrow : ∀ x' ∈ (s.closeWhere p f hf).sessions.rows, ∃ x ∈ s.sessions.rows, x'.id = x.id ∧
      x'.agentId = x.agentId ∧ x'.startedAt = x.startedAt ∧
      (x'.stoppedAt = x.stoppedAt ∨ (x.stoppedAt = none ∧ ∃ t, x'.stoppedAt = some t ∧ t ≤ s.now)) := by
    intro x' hx'
    obtain ⟨x, hx, ⟨_, rfl⟩ | ⟨hmatch, i, _, _, rfl⟩⟩ := Table.mem_patchRows hx'
    · exact ⟨x', hx, rfl, rfl, rfl, .inl rfl⟩
    · obtain ⟨hagent, hstarted, hstopped⟩ := hclose x hx
      obtain ⟨hopen, _⟩ := Bool.and_eq_true_iff.mp hmatch
      exact ⟨x, hx, hf x, hagent, hstarted, .inr ⟨Option.isNone_iff_eq_none.mp hopen, hstopped⟩⟩
  constructor
  · intro x' hx'
    obtain ⟨x, hx, hid, _⟩ := hrow x' hx'
    rw [hid]
    exact hs.fresh x hx
  · intro x' hx'
    obtain ⟨x, hx, _, _, hstarted, _⟩ := hrow x' hx'
    rw [hstarted]
    exact hs.started x hx
  · intro x' hx' t ht
    obtain ⟨x, hx, _, _, _, hsame | ⟨_, u, hu, hle⟩⟩ := hrow x' hx'
    · exact hs.stopped x hx t (hsame.symm.trans ht)
    · cases hu.symm.trans ht
      exact hle
  · exact hs.finished
  · exact hs.ended
  · intro x' hx' y' hy' hagent hne
    obtain ⟨x, hx, hxid, hxagent, hxstart, hxstop⟩ := hrow x' hx'
    obtain ⟨y, hy, hyid, hyagent, hystart, hystop⟩ := hrow y' hy'
    have hkeep : ∀ {x x' y y' : Session}, (x'.stoppedAt = x.stoppedAt ∨
        (x.stoppedAt = none ∧ ∃ t, x'.stoppedAt = some t ∧ t ≤ s.now)) →
        y'.startedAt = y.startedAt → x.Before y → x'.Before y' := by
      rintro x x' y y' (hsame | ⟨hopen, _⟩) hstart ⟨t, ht, hle⟩
      · exact ⟨t, hsame.trans ht, by rwa [hstart]⟩
      · cases hopen.symm.trans ht
    obtain hbefore | hafter := hs.apart x hx y hy (hxagent.symm.trans (hagent.trans hyagent))
      (by rwa [← hxid, ← hyid])
    · exact .inl (hkeep hxstop hystart hbefore)
    · exact .inr (hkeep hystop hxstart hafter)

theorem Accounted.open (hs : Accounted s) (hnone : s.openCount id = 0) {x : Session}
    (hid : x.id = s.nextId) (hagent : x.agentId = id) (hstart : x.startedAt = s.now)
    (hopen : x.stoppedAt = none) {sessions : Table Session.id} (h : s.sessions.insert x = some sessions) :
    Accounted { s with sessions := sessions, nextId := s.nextId + 1 } := by
  have hmem := @Table.mem_of_insert _ _ _ _ _ _ _ h
  have hold : ∀ y ∈ s.sessions.rows, y.agentId = id → y.Before x := by
    intro y hy hyagent
    cases hstop : y.stoppedAt with
    | none =>
      have hzero := Table.count_eq_zero_iff.mp hnone y hy
      rw [Session.openOf_iff.mpr ⟨hyagent, hstop⟩] at hzero
      cases hzero
    | some t =>
      refine ⟨t, hstop, ?_⟩
      rw [hstart]
      exact hs.stopped y hy t hstop
  constructor
  · intro y hy
    obtain hy | rfl := hmem.mp hy
    · exact Nat.lt_succ_of_lt (hs.fresh y hy)
    · rw [hid]
      exact Nat.lt_succ_self _
  · intro y hy
    obtain hy | rfl := hmem.mp hy
    · exact hs.started y hy
    · exact hstart.le
  · intro y hy t ht
    obtain hy | rfl := hmem.mp hy
    · exact hs.stopped y hy t ht
    · cases hopen.symm.trans ht
  · exact hs.finished
  · exact hs.ended
  · intro y hy z hz hsame hne
    obtain hy | rfl := hmem.mp hy
    · obtain hz | rfl := hmem.mp hz
      · exact hs.apart y hy z hz hsame hne
      · exact .inl (hold y hy (hsame.trans hagent))
    · obtain hz | rfl := hmem.mp hz
      · exact .inr (hold z hz (hsame.symm.trans hagent))
      · exact absurd rfl hne

/-! ## Start -/

/-- The books are right, and no session of the agent is open. -/
def Vacant (id : Uuid) (s : Store) : Prop := Books s ∧ s.openCount id = 0

theorem vacant_quiet (id : Uuid) (s s' : Store) (h : Quiet s s') (hs : Vacant id s) : Vacant id s' :=
  ⟨h.books hs.1, (h.openCount id).trans hs.2⟩

def Timed (id : Uuid) (startedAt : Option ℕ) (s : Store) : Prop :=
  Vacant id s ∧ startedAt.getD s.now = s.now

theorem timed_quiet (id : Uuid) (startedAt : Option ℕ) (s s' : Store) (h : Quiet s s')
    (hs : Timed id startedAt s) : Timed id startedAt s' := by
  refine ⟨vacant_quiet id s s' h hs.1, ?_⟩
  rw [h.now]
  exact hs.2

/-- The container of this name has come up now. -/
def UpSince (id : Uuid) (agentId : String) (s : Store) : Prop :=
  Vacant id s ∧ ∀ c, s.containers agentId = some c → c.startedAt = some s.now

theorem always_vacant {α : Type} {p : Handler α} (hp : Only (fun st => st.quiet = true) p)
    (hs : Vacant id s) : Always Written p (fun _ => Vacant id) (fun _ => Vacant id) s :=
  keeps_quiet (vacant_quiet id) hp s hs

theorem upSince_createAndStart {agentId : String} (hs : Vacant id s) :
    Always Written (createAndStartContainer agentId) (fun _ => UpSince id agentId)
      (fun _ => Vacant id) s := by
  apply always_then (fun _ => Vacant id)
  · exact always_vacant ((only_removeExisting agentId).mono fun _ => quiet_of_docker) hs
  intro _ s₀ hs₀
  apply always_then (fun _ => Vacant id) (always_vacant (only_ask (by rfl)) hs₀)
  intro _ s₁ hs₁
  apply always_then (fun _ => Vacant id) (always_vacant (only_ask (by rfl)) hs₁)
  intro containerId s₂ hs₂
  apply always_then (fun _ => UpSince id agentId)
  · apply always_query
    · intro _ s₃ h
      refine ⟨vacant_quiet id _ _ (quiet_written rfl h) hs₂, ?_⟩
      cases h with
      | answered effect =>
        simp only [Statement.run] at effect
        split at effect
        · split at effect
          · cases effect
            intro c hc
            change Function.update s₂.containers agentId _ agentId = some c at hc
            rw [Function.update_self] at hc
            cases hc
            rfl
          · cases effect
        · cases effect
    · exact fun e s₃ h => vacant_quiet id _ _ (quiet_written rfl h) hs₂
  intro _ s₃ hs₃
  apply always_then (fun _ => UpSince id agentId)
  · have hsame : ∀ answer s', Written s₃ (.inspectCreated agentId containerId) answer s' → s' = s₃ := by
      have hrun : ∀ {c rows s'},
          Statement.run s₃ c (.inspectCreated agentId containerId) = .ok (rows, s') → s' = s₃ := by
        intro c rows s' effect
        simp only [Statement.run] at effect
        split at effect
        · split at effect
          · cases effect
            rfl
          · cases effect
        · cases effect
      intro answer s' h
      cases h with
      | answered effect => exact hrun effect
      | failed _ => rfl
      | lost _ effect => exact hrun effect
    apply always_query
    · intro _ s' h
      rw [hsame _ s' h]
      exact hs₃
    · intro _ s' h
      rw [hsame _ s' h]
      exact hs₃.1
  · exact fun _ _ h => h

theorem timed_readStartedAt {agentId : String} {E : Failure → Store → Prop} (hs : UpSince id agentId s) :
    Always Written (readStartedAt agentId) (Timed id) E s := by
  rw [readStartedAt, always_tryCatch, always_bind]
  apply always_read (r := s.containers agentId) fun _ => rfl
  · refine ⟨hs.1, ?_⟩
    cases hc : s.containers agentId with
    | none => rfl
    | some c =>
      rw [Option.bind_some, hs.2 c hc]
      rfl
  · exact fun _ => ⟨hs.1, rfl⟩

theorem quiet_storeMinted (kind : TokenKind) (rid : Uuid) (minted : Option Credential) :
    Only (fun st => st.quiet = true) (storeMinted kind rid minted) := by
  cases minted with
  | none => exact only_pure _
  | some credential => exact only_best (only_ask (by rfl))

theorem quiet_installTools (agent : Agent) :
    Only (fun st => st.quiet = true) (installRequiredTools agent) := by
  apply only_tryCatch (only_ask (by rfl))
  intro _
  exact only_bind (only_best ((only_stopAndRemove _).mono fun _ => quiet_of_docker)) fun _ => only_throw _

theorem quiet_mintToken (kind : TokenKind) (rid : Uuid) :
    Only (fun st => st.quiet = true) (mintToken cfg kind rid) :=
  only_ite (fun _ => only_tryCatch (only_ask (by rfl)) fun _ => only_pure _) fun _ => only_pure _

/-- The agent is recorded as running, and its session is still to be opened. -/
def Opening (id : Uuid) (startedAt : Option ℕ) (s : Store) : Prop :=
  Accounted s ∧ Tracked s (· = id) ∧ s.openCount id = 0 ∧ startedAt.getD s.now = s.now

theorem opening_markRunning {startedAt : Option ℕ} {containerId workToken : Uuid}
    {E : Failure → Store → Prop} (hs : Timed id startedAt s) :
    Always Written (ask (.markRunning id containerId workToken)) (fun _ => Opening id startedAt) E s := by
  apply always_write rfl
  intro c _ s' effect
  cases effect
  obtain ⟨⟨hbooks, hnone⟩, htime⟩ := hs
  refine ⟨⟨hbooks.accounted.fresh, hbooks.accounted.started, hbooks.accounted.stopped, ?_,
    hbooks.accounted.ended, hbooks.accounted.apart⟩, ?_, hnone, htime⟩
  · intro a' ha' t ht
    obtain ⟨a, ha, ⟨_, rfl⟩ | ⟨_, i, _, _, rfl⟩⟩ := Table.mem_patchRows ha'
    · exact hbooks.accounted.finished a' ha t ht
    · cases ht
  · intro rid a' ha' hrunning hne
    rw [Store.agent?_rewrite, Option.map_eq_some_iff] at ha'
    obtain ⟨a, ha, rfl⟩ := ha'
    have hkey : a.id ≠ id := by
      rw [Table.key_of_get? ha]
      exact hne
    rw [if_neg hkey] at hrunning
    exact hbooks.tracked rid a ha hrunning fun h => h

theorem books_insertSession {startedAt : Option ℕ} {E : Failure → Store → Prop}
    (hs : Opening id startedAt s) :
    Always Written (best (ask (.insertSession id startedAt))) (fun _ => Books) E s := by
  obtain ⟨haccounted, htracked, hnone, htime⟩ := hs
  rw [best, always_tryCatch]
  apply always_write rfl
  intro c _ s' effect
  simp only [Statement.run] at effect
  split at effect
  · rename_i sessions hinsert
    cases effect
    refine ⟨haccounted.open hnone rfl rfl htime rfl hinsert, fun rid a ha hrunning _ => ?_⟩
    have hcount := Table.count_of_insert (q := Session.openOf rid) hinsert
    change sessions.count (Session.openOf rid) = 1
    by_cases hrid : rid = id
    · subst hrid
      change s.sessions.count (Session.openOf rid) = 0 at hnone
      rw [hcount, hnone]
      simp [Session.openOf]
    · have hother := htracked rid a ha hrunning hrid
      change s.sessions.count (Session.openOf rid) = 1 at hother
      rw [hcount, hother, if_neg]
      rw [Session.openOf_iff]
      exact fun h => hrid h.1.symm
  · rename_i hrefused
    cases effect

theorem books_launch {agent : Agent} (hs : Vacant agent.id s) :
    Always Written (launch cfg agent) (fun _ => Books) (fun _ => Books) s := by
  have hstep : ∀ {α : Type} {p : Handler α} {f : α → Handler Response} {s : Store},
      Only (fun st => st.quiet = true) p → Vacant agent.id s →
      (∀ a s, Vacant agent.id s → Always Written (f a) (fun _ => Books) (fun _ => Books) s) →
      Always Written (p >>= f) (fun _ => Books) (fun _ => Books) s := by
    intro α p f s hp hs hf
    apply always_then (fun _ => Vacant agent.id) _ hf
    exact (always_vacant hp hs).mono (fun _ _ h => h) fun _ _ h => h.1
  rw [launch]
  apply hstep (only_ask (by rfl)) hs
  intro _ s₁ hs₁
  apply hstep (quiet_mintToken .akm agent.id) hs₁
  intro akm s₂ hs₂
  apply hstep (quiet_mintToken .modelRouter agent.id) hs₂
  intro modelRouter s₃ hs₃
  apply hstep (only_ask (by rfl)) hs₃
  intro workToken s₄ hs₄
  apply hstep (only_ask (by rfl)) hs₄
  intro _ s₄' hs₄'
  apply hstep (only_ask (by rfl)) hs₄'
  intro _ s₅ hs₅
  apply always_then (fun _ => UpSince agent.id agent.agentId)
  · exact (upSince_createAndStart hs₅).mono (fun _ _ h => h) fun _ _ h => h.1
  intro containerId s₆ hs₆
  apply always_then (Timed agent.id) (timed_readStartedAt hs₆)
  intro startedAt s₇ hs₇
  have htimed : ∀ {α : Type} {p : Handler α} {f : α → Handler Response} {s : Store},
      Only (fun st => st.quiet = true) p → Timed agent.id startedAt s →
      (∀ a s, Timed agent.id startedAt s → Always Written (f a) (fun _ => Books) (fun _ => Books) s) →
      Always Written (p >>= f) (fun _ => Books) (fun _ => Books) s := by
    intro α p f s hp hs hf
    apply always_then (fun _ => Timed agent.id startedAt) _ hf
    exact (keeps_quiet (timed_quiet agent.id startedAt) hp s hs).mono (fun _ _ h => h) fun _ _ h => h.1.1
  apply htimed (quiet_installTools agent) hs₇
  intro _ s₈ hs₈
  apply htimed (quiet_storeMinted .akm agent.id akm) hs₈
  intro _ s₉ hs₉
  apply htimed (quiet_storeMinted .modelRouter agent.id modelRouter) hs₉
  intro _ s₁₀ hs₁₀
  apply always_then (fun _ => Opening agent.id startedAt) (opening_markRunning hs₁₀)
  intro _ s₁₁ hs₁₁
  exact always_then (fun _ => Books) (books_insertSession hs₁₁) fun _ _ h => h

theorem books_quiet (s s' : Store) (h : Quiet s s') (hs : Books s) : Books s' := h.books hs

theorem quiet_failStart (id : Uuid) (e : Failure) : Only (fun st => st.quiet = true) (failStart id e) := by
  cases e with
  | _ => exact only_bind (only_best (only_ask (by rfl))) fun _ => only_pure _

theorem books_start (hs : Books s) (hnone : s.openCount id = 0) :
    Always Written (Agents.start cfg id) (fun _ => Books) (fun _ => Books) s := by
  have hfail : ∀ e s, Books s → Always Written (failStart id e) (fun _ => Books) (fun _ => Books) s :=
    fun e s hs => keeps_quiet books_quiet (quiet_failStart id e) s hs
  rw [Agents.start, always_tryCatch]
  apply always_ite
  · exact fun _ => hs
  · intro _
    rw [always_bind]
    apply always_read (r := s.agent? id) fun _ => rfl
    · cases hagent : s.agent? id with
      | none => exact hs
      | some agent =>
        have hid : agent.id = id := Table.key_of_get? hagent
        subst hid
        exact (books_launch ⟨hs, hnone⟩).mono (fun _ _ h => h) hfail
    · exact fun e => hfail e s hs

/-! ## Stop, delete and refresh -/

theorem quiet_revokeToken {kind : TokenKind} (agent : Agent) :
    Only (fun st => st.quiet = true) (revokeToken cfg kind agent) := by
  rw [revokeToken]
  split
  · apply only_ite
    · intro _
      apply only_tryCatch
      · exact only_bind (only_ask (by rfl)) fun _ => only_pure _
      · exact fun _ => only_pure _
    · exact fun _ => only_pure _
  · exact only_pure _

theorem always_books {α β : Type} {p : Handler α} {f : α → Handler β}
    (hp : Only (fun st => st.quiet = true) p) (hs : Books s)
    (hf : ∀ a s, Books s → Always Written (f a) (fun _ => Books) (fun _ => Books) s) :
    Always Written (p >>= f) (fun _ => Books) (fun _ => Books) s :=
  always_then (fun _ => Books) (keeps_quiet books_quiet hp s hs) hf

/-- The sessions of the agent are closed, and its row may still say that it runs. -/
def Closing (id : Uuid) (s : Store) : Prop :=
  Accounted s ∧ Tracked s (· = id)

theorem openCount_closeWhere {p : Session → Bool} {f : Session → Session} {hf : ∀ x, (f x).id = x.id}
    (h : ∀ x, (x.stoppedAt.isNone && p x) = true →
      x.openOf id = false ∧ (f x).openOf id = false) :
    (s.closeWhere p f hf).openCount id = s.openCount id := by
  change (Table.patch s.sessions _ _ 0 fun _ => hf).count _ = s.sessions.count _
  rw [Table.count_patch_eq]
  exact fun x hx => ⟨(h x hx).1, fun _ => (h x hx).2⟩

theorem closing_closeSessions {E : Failure → Store → Prop} (hs : Books s) :
    Always Written (best (ask (.closeSessions id))) (fun _ => Closing id) E s := by
  rw [best, always_tryCatch]
  apply always_write rfl
  intro c _ s' effect
  cases effect
  constructor
  · exact hs.accounted.closeWhere fun x _ => ⟨rfl, rfl, s.now, rfl, Nat.le_refl _⟩
  · intro rid a ha hrunning hne
    have hother := hs.tracked rid a ha hrunning fun h => h
    rw [← hother]
    apply openCount_closeWhere
    intro x hmatch
    obtain ⟨_, hagent⟩ := Bool.and_eq_true_iff.mp hmatch
    have hxid : x.agentId = id := of_decide_eq_true hagent
    simp [Session.openOf, hxid, Ne.symm hne]

theorem books_markStopped {keepAkm kept : Bool} {E : Failure → Store → Prop} (hs : Closing id s) :
    Always Written (ask (.markStopped id keepAkm kept)) (fun _ => Books) E s := by
  apply always_write rfl
  intro c _ s' effect
  have hquiet := quiet_run (by rfl : (Statement.markStopped id keepAkm kept).quiet = true) effect
  refine ⟨hquiet.accounted hs.1, fun rid a' ha' hrunning _ => ?_⟩
  apply hquiet.tracked hs.2 rid a' ha' hrunning
  rintro rfl
  cases effect
  rw [Store.agent?_rewrite, Option.map_eq_some_iff] at ha'
  obtain ⟨a, ha, rfl⟩ := ha'
  rw [if_pos (Table.key_of_get? ha)] at hrunning
  cases hrunning

theorem books_stop (hs : Books s) :
    Always Written (stop cfg id) (fun _ => Books) (fun _ => Books) s := by
  rw [stop, always_tryCatch]
  apply always_books (only_ask (by rfl)) hs
  intro agent s₁ hs₁
  cases agent with
  | none => exact hs₁
  | some agent =>
    apply always_books (quiet_revokeToken agent) hs₁
    intro akmKept s₂ hs₂
    apply always_books (quiet_revokeToken agent) hs₂
    intro kept s₃ hs₃
    apply always_books _ hs₃
    · intro _ s₄ hs₄
      apply always_books (only_best (only_ask (by rfl))) hs₄
      intro _ s₅ hs₅
      apply always_then (fun _ => Closing agent.id) (closing_closeSessions hs₅)
      intro _ s₆ hs₆
      exact always_then (fun _ => Books) (books_markStopped hs₆) fun _ _ h => h
    · apply only_tryCatch ((only_stopAndRemove _).mono fun _ => quiet_of_docker)
      exact fun _ => only_bind (only_best (only_ask (by rfl))) fun _ => only_throw _

theorem books_deleteAgent {E : Failure → Store → Prop} (hs : Books s) :
    Always Written (ask (.deleteAgent id)) (fun _ => Books) E s := by
  apply always_write rfl
  intro c _ s' effect
  cases effect
  have hmem : ∀ x ∈ (s.sessions.delete fun x => x.agentId = id).rows, x ∈ s.sessions.rows :=
    fun x hx => (Table.mem_delete.mp hx).1
  constructor
  · exact ⟨fun x hx => hs.accounted.fresh x (hmem x hx), fun x hx => hs.accounted.started x (hmem x hx),
      fun x hx => hs.accounted.stopped x (hmem x hx),
      fun a ha => hs.accounted.finished a (Table.mem_delete.mp ha).1, hs.accounted.ended,
      fun x hx y hy => hs.accounted.apart x (hmem x hx) y (hmem y hy)⟩
  · intro rid a ha hrunning _
    obtain ⟨hbefore, hkept⟩ := Table.get?_of_delete ha
    have hother := hs.tracked rid a hbefore hrunning fun h => h
    rw [← hother]
    apply Table.count_delete_eq
    intro x hx
    have hxid : x.agentId = id := of_decide_eq_true hx
    have hrid : rid ≠ id := by
      rintro rfl
      have hne : a.id ≠ rid := of_decide_eq_false hkept
      exact hne (Table.key_of_get? hbefore)
    simp [Session.openOf, hxid, Ne.symm hrid]

theorem books_delete (hs : Books s) :
    Always Written (delete cfg id) (fun _ => Books) (fun _ => Books) s := by
  rw [delete, always_tryCatch]
  apply always_books (only_ask (by rfl)) hs
  intro agent s₁ hs₁
  cases agent with
  | none => exact hs₁
  | some agent =>
    apply always_books (quiet_revokeToken agent) hs₁
    intro _ s₂ hs₂
    apply always_books (quiet_revokeToken agent) hs₂
    intro _ s₃ hs₃
    apply always_books _ hs₃
    · intro _ s₄ hs₄
      exact always_then (fun _ => Books) (books_deleteAgent hs₄) fun _ _ h => h
    · apply only_ite
      · exact fun _ => only_best ((only_stopAndRemove _).mono fun _ => quiet_of_docker)
      · exact fun _ => only_pure _

theorem quiet_refresh (sub : String ⊕ Uuid) (secret : Uuid) :
    Only (fun st => st.quiet = true) (refresh sub secret) := by
  apply only_tryCatch
  · apply only_bind (only_ask (by rfl))
    intro agent
    cases agent with
    | none => exact only_pure _
    | some agent =>
      apply only_bind (only_ask (by rfl))
      intro minted
      cases minted with
      | none => exact only_throw _
      | some credential =>
        apply only_bind (only_ask (by rfl))
        intro _
        apply only_bind
        · unfold revokeReplaced
          split
          · exact only_best (only_ask (by rfl))
          · exact only_pure _
        · exact fun _ => only_pure _
  · exact fun _ => only_pure _

/-! ## The pass -/

/-- An agent whose container is up beside a row that does not say so has one open session. -/
def Promotable (s : Store) : Prop :=
  ∀ id a, s.agent? id = some a → a.status ≠ .running →
    Container.running (s.containers a.agentId) = true → s.openCount id = 1

theorem finished_reconciled {containers : String → Option Container} {verified : Uuid → Bool}
    {a : Agent} {t : ℕ} (h : (reconciled containers verified a).containerFinishedAt = some t) :
    a.containerFinishedAt = some t ∨ ∃ c, containers a.agentId = some c ∧ c.finishedAt = some t := by
  unfold reconciled at h
  split at h
  · simp only [reconcileRow] at h
    split at h
    · cases h
    · split at h
      · exact .inr (Option.bind_eq_some_iff.mp h)
      · split at h
        · exact .inl h
        · exact .inl h
  · simp only [reconcileRow] at h
    split at h
    · exact .inl h
    · exact .inl h

theorem books_reconciled {verified : Uuid → Bool} (hs : Books s) (hup : Promotable s)
    (h : Reconciled s s.agents.rows verified s') : Books s' := by
  have hrow : ∀ id a', s'.agent? id = some a' →
      ∃ a, s.agent? id = some a ∧ a' = reconciled s.containers verified a := by
    intro id a' ha'
    rw [h.rows, Option.map_eq_some_iff] at ha'
    obtain ⟨a, ha, rfl⟩ := ha'
    exact ⟨a, ha, if_pos (Table.mem_of_get? ha)⟩
  have hcount : ∀ id, s'.openCount id = s.openCount id := by
    intro id
    rw [Store.openCount, Store.openCount, h.sessions]
  constructor
  · constructor
    · rw [h.sessions, h.nextId]
      exact hs.accounted.fresh
    · rw [h.sessions, h.now]
      exact hs.accounted.started
    · rw [h.sessions, h.now]
      exact hs.accounted.stopped
    · intro a' ha' t ht
      obtain ⟨a, ha, rfl⟩ := hrow _ _ (Table.mem_iff_get?.mp ha')
      rw [h.now]
      obtain hsame | ⟨c, hc, hfinished⟩ := finished_reconciled ht
      · exact hs.accounted.finished a (Table.mem_of_get? ha) t hsame
      · have hended := hs.accounted.ended _ _ hc
        rw [Container.ended, hfinished] at hended
        exact of_decide_eq_true hended
    · rw [h.containers, h.now]
      exact hs.accounted.ended
    · rw [h.sessions]
      exact hs.accounted.apart
  · intro id a' ha' hrunning _
    obtain ⟨a, ha, rfl⟩ := hrow id a' ha'
    rw [hcount]
    by_cases hstatus : a.status = .running
    · exact hs.tracked id a ha hstatus fun h => h
    · apply hup id a ha hstatus
      obtain ⟨_, hsame, _⟩ | ⟨_, hrun, _⟩ | ⟨_, _, hwas, _⟩ | ⟨_, _, _, hsame, _⟩ :=
        reconciled_cases s.containers verified a
      · exact absurd (hsame.symm.trans hrunning) hstatus
      · exact hrun
      · exact absurd hwas hstatus
      · exact absurd (hsame.symm.trans hrunning) hstatus

theorem books_swept (hs : Books s) : Books s.swept := by
  constructor
  · apply hs.accounted.closeWhere
    intro x hx
    refine ⟨rfl, rfl, _, rfl, ?_⟩
    cases hfinished : s.finishedAt x with
    | none => exact Nat.le_refl _
    | some t =>
      obtain ⟨a, ha, ht⟩ := Option.bind_eq_some_iff.mp hfinished
      exact hs.accounted.finished a (Table.mem_of_get? ha) t ht
  · intro id a ha hrunning _
    have hopen := hs.tracked id a ha hrunning fun h => h
    rw [← hopen]
    apply openCount_closeWhere
    intro x hmatch
    obtain ⟨_, hstale⟩ := Bool.and_eq_true_iff.mp hmatch
    have hxid : x.agentId ≠ id := by
      rintro rfl
      rw [Store.stale] at hstale
      have hsame : s.agent? x.agentId = some a := ha
      rw [hsame, Option.any_some] at hstale
      exact of_decide_eq_true hstale hrunning
    simp [Session.openOf, hxid, Store.close]

/-- After a sweep no session of an agent that is not running is open. -/
theorem openCount_swept {a : Agent} (ha : s.agent? id = some a) (hstatus : a.status ≠ .running) :
    s.swept.openCount id = 0 := by
  apply Table.count_eq_zero_iff.mpr
  intro x' hx'
  obtain ⟨x, hx, ⟨hnot, rfl⟩ | ⟨_, i, _, _, rfl⟩⟩ := Table.mem_patchRows hx'
  · by_contra hopen
    obtain ⟨hagent, hstopped⟩ := Session.openOf_iff.mp (by simpa using hopen)
    have hstale : s.stale x' = true := by
      rw [Store.stale, hagent, ha, Option.any_some]
      exact decide_eq_true hstatus
    rw [hstopped, hstale] at hnot
    cases hnot
  · simp [Session.openOf, Store.close]

/-- Every session of an agent that is not running is closed, if the pass could read the agents. -/
def Swept (response : Response) (s : Store) : Prop :=
  response ≠ .passed none → ∀ id a, s.agent? id = some a → a.status ≠ .running → s.openCount id = 0

theorem books_pass {E : Failure → Store → Prop} (hs : Books s) (hup : Promotable s) :
    Always Written runReconcilePass (fun response s' => Books s' ∧ Swept response s') E s := by
  have hpass : Always Written runReconcilePass _ E s := always_pass fun p h => by cases h
  apply hpass.mono _ fun _ _ h => h
  rintro response s' (⟨_, rfl, rfl⟩ | ⟨verified, result, rfl, _, hswept⟩)
  · exact ⟨hs, fun h => absurd rfl h⟩
  · obtain ⟨s₁, hpass, rfl⟩ := hswept fun h => by cases h
    refine ⟨books_swept (books_reconciled hs hup hpass), fun _ id a ha hstatus => ?_⟩
    exact openCount_swept ha hstatus

/-! ## All runs -/

variable {pattern : List (Outcome Choice Failure)}

def WritesSucceed (cfg : Config) (s : Store) : Call Choice Failure Request Surroundings → Prop
  | .request q pattern => ∀ st ∈ ((service cfg).serve {} s q pattern).1.failures, st.writes = false
  | .environment _ => True

/-- An agent is started only with no session open, and found up beside a row that does not say
so only with one. -/
def Bookkept (cfg : Config) (s : Store) (call : Call Choice Failure Request Surroundings) : Prop :=
  WritesSucceed cfg s call ∧
    match call with
    | .request (.start id) _ => s.openCount id = 0
    | .request .pass _ => Promotable s
    | _ => True

theorem books_serve {q : Request} (hs : Books s) (hok : Bookkept cfg s (.request q pattern)) :
    Books ((service cfg).serve {} s q pattern).1.store := by
  obtain ⟨hwrites, hgood⟩ := hok
  have hbooks : (q.handler cfg).Always Written (fun _ => Books) (fun _ => Books) s := by
    cases q with
    | start id => exact books_start hs hgood
    | stop id => exact books_stop hs
    | delete id => exact books_delete hs
    | refresh sub secret => exact keeps_quiet books_quiet (quiet_refresh sub secret) s hs
    | pass => exact (books_pass hs hgood).mono (fun _ _ h => h.1) fun _ _ h => h
  exact Service.serve_of_always (V := service cfg) hbooks hwrites

theorem books_environment {x : Surroundings} (hx : x.apply s = some s') (hs : Books s) : Books s' := by
  cases x with
  | tick d =>
    cases hx
    have hlater : ∀ {t : ℕ}, t ≤ s.now → t ≤ s.now + d := fun h => Nat.le_add_right_of_le h
    refine ⟨⟨hs.accounted.fresh, fun x hx => hlater (hs.accounted.started x hx),
      fun x hx t ht => hlater (hs.accounted.stopped x hx t ht),
      fun a ha t ht => hlater (hs.accounted.finished a ha t ht), ?_, hs.accounted.apart⟩, hs.tracked⟩
    intro agentId c hc
    have hended := hs.accounted.ended agentId c hc
    rw [Container.ended] at hended ⊢
    cases hfinished : c.finishedAt with
    | none => rfl
    | some t =>
      rw [hfinished] at hended
      exact decide_eq_true (hlater (of_decide_eq_true hended))
  | docker agentId container =>
    simp only [Surroundings.apply] at hx
    split at hx
    · rename_i hended
      cases hx
      apply (quiet_setContainer s (Nat.le_refl _) _).books hs
      rintro c rfl
      exact hended
    · cases hx

theorem books_of_reachable (h : ((service cfg).serial {}).ReachableIf (Bookkept cfg) s) : Books s := by
  apply h.invariant
  · intro s hs
    have hnone : ∀ x, x ∉ s.sessions.rows := by
      rw [hs.sessions]
      exact fun _ => List.not_mem_nil
    constructor
    · refine ⟨fun x hx => absurd hx (hnone x), fun x hx => absurd hx (hnone x),
        fun x hx => absurd hx (hnone x), ?_, hs.containers, fun x hx => absurd hx (hnone x)⟩
      intro a ha t ht
      rw [of_decide_eq_true (hs.agents a ha)] at ht
      cases ht
    · intro id a ha hrunning _
      rw [of_decide_eq_true (hs.agents a (Table.mem_of_get? ha))] at hrunning
      cases hrunning
  · intro s call s' hs hok hstep
    cases call with
    | environment x => exact books_environment hstep hs
    | request q pattern =>
      cases hstep
      exact books_serve hs hok

theorem length_openSessions (s : Store) (id : Uuid) : (s.openSessions id).length = s.openCount id :=
  List.countP_eq_length_filter.symm

/-- In every run that is kept to the books a running agent has one open session, an agent that
is not running has none after a pass, and no two sessions of an agent overlap. -/
theorem sessions_accounted (cfg : Config) (s : Store)
    (h : ((service cfg).serial {}).ReachableIf (Bookkept cfg) s) :
    (∀ id a, s.agent? id = some a → a.status = .running → (s.openSessions id).length = 1) ∧
    (∀ x ∈ s.sessions.rows, ∀ y ∈ s.sessions.rows, x.agentId = y.agentId → x.id ≠ y.id →
      (∃ t, x.stoppedAt = some t ∧ t ≤ y.startedAt) ∨ ∃ t, y.stoppedAt = some t ∧ t ≤ x.startedAt) ∧
    ∀ pattern, Bookkept cfg s (.request .pass pattern) →
      (passFrom cfg s pattern).2 ≠ .ok (.passed none) →
      ∀ id a, (afterPass cfg s pattern).agent? id = some a → a.status ≠ .running →
        (afterPass cfg s pattern).openSessions id = [] := by
  have hbooks := books_of_reachable h
  refine ⟨?_, hbooks.accounted.apart, ?_⟩
  · intro id a ha hrunning
    rw [length_openSessions]
    exact hbooks.tracked id a ha hrunning fun h => h
  · intro pattern hok hread id a ha hstatus
    have hpass : ((service cfg).handler .pass).Always
        (Admitted (service cfg).run fun st => st.writes = false)
        (fun response s' => Books s' ∧ Swept response s') (fun _ _ => False) s :=
      books_pass hbooks hok.2
    have hended : Program.Ended _ _ (passFrom cfg s pattern) := Service.ended_of_serve hpass hok.1
    have hswept : ∀ ending : Ending, Program.Ended
        (fun response (t : Log Statement Statement.Rows Store) => Books t.store ∧ Swept response t.store)
        (fun _ _ => False) ending → ending.2 ≠ .ok (.passed none) →
        ∀ id a, ending.1.store.agent? id = some a → a.status ≠ .running →
          ending.1.store.openCount id = 0 := by
      rintro ⟨t, response | e⟩ hended hread
      · exact hended.elim
      · exact hended.2 fun h => hread (congrArg Except.ok h)
    rw [← List.length_eq_zero_iff, length_openSessions]
    exact hswept _ hended hread id a ha hstatus

def bookCheck (s : Store) (call : Call Choice Failure Request Surroundings) : Bool :=
  match call with
  | .request q pattern => (((service {}).serve {} s q pattern).1.failures.all fun st => !st.writes) &&
    match q with
    | .start id => s.openCount id = 0
    | .pass => s.agents.rows.all fun a =>
      a.status = .running || !Container.running (s.containers a.agentId) || s.openCount a.id = 1
    | _ => true
  | _ => true

theorem bookkept_of_check {call : Call Choice Failure Request Surroundings} (h : bookCheck s call = true) :
    Bookkept {} s call := by
  cases call with
  | environment x => exact ⟨trivial, trivial⟩
  | request q pattern =>
    obtain ⟨hwrites, hgood⟩ := Bool.and_eq_true_iff.mp h
    refine ⟨fun st hst => by simpa using List.all_eq_true.mp hwrites st hst, ?_⟩
    cases q with
    | start id => exact of_decide_eq_true hgood
    | pass =>
      intro id a ha hstatus hup
      have hrow := List.all_eq_true.mp hgood a (Table.mem_of_get? ha)
      have hid : a.id = id := Table.key_of_get? ha
      simpa [hstatus, hup, hid] using hrow
    | stop | delete | refresh => exact trivial

/-- A start and a stop, and a start again. -/
def resumed : List (Call Choice Failure Request Surroundings) :=
  [.request (.start 1) [], .environment (.tick 60), .request .pass [], .request (.stop 1) [],
    .environment (.tick 5), .request (.start 1) []]

def resumedStore : Store := ((service {}).serial {}).after (oneAgent none) resumed

theorem sessions_accounted_resumed :
    resumedStore.sessions.rows.length = 2 ∧ (resumedStore.openSessions 1).length = 1 := by
  have hreach : ((service {}).serial {}).ReachableIf (Bookkept {}) resumedStore :=
    Machine.reachableIf_of_accepts (C := bookCheck) (fun _ _ _ => bookkept_of_check)
      (fresh_oneAgent none rfl) (by decide +kernel)
  obtain ⟨a, ha⟩ : ∃ a, resumedStore.agent? 1 = some a :=
    Option.isSome_iff_exists.mp (by decide +kernel)
  have hrunning : (resumedStore.agent? 1).map (·.status) = some .running := by decide +kernel
  rw [ha] at hrunning
  exact ⟨by decide +kernel, (sessions_accounted {} resumedStore hreach).1 1 a ha (Option.some.inj hrunning)⟩

theorem restart_doubles_session :
    ¬∀ (cfg : Config) (s : Store), ((service cfg).serial {}).ReachableIf (WritesSucceed cfg) s →
      ∀ id a, s.agent? id = some a → a.status = .running → (s.openSessions id).length = 1 := by
  intro h
  have hwrites : ∀ (s : Store) (call : Call Choice Failure Request Surroundings),
      (match call with
        | .request q pattern =>
          ((service {}).serve {} s q pattern).1.failures.all fun st => !st.writes
        | .environment _ => true) = true → WritesSucceed {} s call := by
    intro s call hcheck
    cases call with
    | environment x => exact trivial
    | request q pattern => exact fun st hst => by simpa using List.all_eq_true.mp hcheck st hst
  have hreach : ((service {}).serial {}).ReachableIf (WritesSucceed {}) restartedStore :=
    Machine.reachableIf_of_accepts (fun s call _ => hwrites s call) (fresh_oneAgent none rfl)
      (by decide +kernel)
  obtain ⟨a, ha⟩ : ∃ a, restartedStore.agent? 1 = some a :=
    Option.isSome_iff_exists.mp (by decide +kernel)
  have hrunning : (restartedStore.agent? 1).map (·.status) = some .running := by decide +kernel
  rw [ha] at hrunning
  have hone := h {} restartedStore hreach 1 a ha (Option.some.inj hrunning)
  exact absurd hone (by decide +kernel)

end Hill90.Agents
