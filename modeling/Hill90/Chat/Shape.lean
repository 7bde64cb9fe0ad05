import Hill90.Chat.Answer
import Hill90.Chat.Membership

/-! # The shape of a thread

A thread has at most eight active agents, a direct one at most one, and a lead is an active
agent of its thread.  A `PUT` of participants counts before it adds, promotes after it has
added, and forgets the lead when it removes; a `PUT` of the thread checks the lead before
it sets it.  Between its additions and its promotion a request owes the promotion.
-/

namespace Hill90.Chat

open Program Service

inductive Addition where
  | idle
  | adding (threadId : Uuid)
  | promoting (threadId : Uuid)

def Addition.subject : Addition → Option Uuid
  | idle => none
  | adding threadId | promoting threadId => some threadId

def WellShaped (type : ThreadType) (lead : Option Uuid) (agentUuids : List Uuid) : Prop :=
  agentUuids.length ≤ maxAgentsPerGroup ∧ (type = .direct → agentUuids.length ≤ 1) ∧
    ∀ uuid, lead = some uuid → uuid ∈ agentUuids

def additions : Discipline Statement Statement.Rows Failure Addition where
  may
    | .idle, .createThread type _ _ lead agentUuids _ _ => WellShaped type lead agentUuids
    | .idle, _ => True
    | .adding threadId, .addParticipant threadId' _ => threadId' = threadId
    | .adding threadId, .getThreadAgents threadId' => threadId' = threadId
    | .adding _, _ => False
    | .promoting threadId, st => st = .promoteThread threadId
  returns := credible
  returned
    | .idle, .addParticipant threadId _, _ => .adding threadId
    | .adding threadId, .getThreadAgents _, (rows : List Uuid) =>
      if 1 < rows.length then .promoting threadId else .idle
    | .promoting _, _, _ => .idle
    | m, _, _ => m
  rejected _ _ _ := .idle

section Meets

variable {cfg : Config} {α : Type} {p : Handler α}

/-- Neither opens a thread nor adds an agent to one. -/
def Statement.calm : Statement → Bool
  | createThread .. | addParticipant .. => false
  | _ => true

abbrev Calm (st : Statement) : Prop := st.calm = true

theorem Calm.of_closing {st : Statement} (h : Closing st) : Calm st := by
  cases st <;> first | rfl | cases h

theorem Calm.of_routine {st : Statement} (h : Routine st) : Calm st :=
  .of_closing (.of_routine h)

theorem Calm.of_delivering {st : Statement} (h : Delivering st) : Calm st := by
  cases st <;> first | rfl | cases h

theorem Calm.of_posting {st : Statement} (h : Posting st) : Calm st := by
  cases st <;> first | rfl | cases h

theorem Calm.of_batching {st : Statement} (h : Batching st) : Calm st := by
  cases st <;> first | rfl | cases h

theorem Calm.of_extending {st : Statement} (h : Extending st) : Calm st := by
  cases st <;> first | rfl | cases h

theorem meets_calm (h : Only Calm p) :
    p.Meets additions (fun _ m => m = .idle) (fun _ m => m = .idle) .idle := by
  refine h.meets (fun st hst => ?_) (fun _ => rfl) fun _ => rfl
  cases st <;> first | exact ⟨trivial, fun _ => rfl, fun _ => rfl⟩ | cases hst

theorem calm_finalCallback (cfg : Config) (id : Uuid) (b : CallbackBody) :
    Only Calm (finalCallback cfg id b) := by
  refine only_bind (only_query rfl) fun rowCount => only_ite (fun _ => ?_) fun _ => ?_
  · exact (only_notUpdated id).mono fun _ => .of_routine
  · refine only_bind (only_query rfl) fun _ => ?_
    refine only_bind ((only_journal cfg id b).mono ?_) fun _ => ?_
    · rintro st (hst | rfl)
      · exact .of_routine hst
      · rfl
    refine only_bind ((only_completeBatch id).mono fun _ => .of_batching) fun _ => ?_
    refine only_bind ((only_tagElevated id).mono fun _ => .of_routine) fun _ => ?_
    refine only_bind ((only_orchestrate cfg id b).mono ?_) fun _ => only_pure _
    rintro st (hst | rfl)
    · exact .of_extending hst
    · rfl

theorem calm_chatCallbackHandler (cfg : Config) (req : CallbackRequest) :
    Only Calm (chatCallbackHandler cfg req) := by
  unfold chatCallbackHandler
  split
  · exact only_pure _
  · refine only_ite (fun _ => only_pure _) fun _ => ?_
    split
    · exact only_pure _
    · refine only_ite (fun _ => only_pure _) fun _ => only_ite (fun _ => ?_) fun _ => ?_
      · refine only_bind (only_query rfl) fun rowCount => only_ite (fun _ => ?_) fun _ => ?_
        · exact (only_notUpdated _).mono fun _ => .of_routine
        · exact only_bind (only_query rfl) fun _ => only_pure _
      · exact calm_finalCallback cfg _ req.body

/-- What `POST /threads` has checked of its agents and its lead. -/
theorem wellShaped_of_checkCreate {req : CreateRequest} {uuids : List Uuid} {type : ThreadType}
    {text : String} (h : checkCreate req = .ok (uuids, type, text)) :
    WellShaped type req.leadAgentId uuids := by
  unfold checkCreate at h
  simp only at h
  generalize (if req.agentIds.isEmpty then req.agentId.toList else req.agentIds) = ids at h
  generalize htype : (if ids.length = 1 then ThreadType.direct else .group) = threadType at h
  have hdirect : threadType = .direct → ids.length ≤ 1 := by
    rintro rfl
    by_cases hone : ids.length = 1
    · omega
    · simp [hone] at htype
  split at h
  · cases h
  · split at h
    · cases h
    · split at h
      · cases h
      · rename_i hmax
        have hlimit : ids.length ≤ maxAgentsPerGroup := by
          cases threadType with
          | direct => exact Nat.le_trans (hdirect rfl) (by decide)
          | group => simpa using hmax
        split at h
        · rename_i hlead
          cases h
          refine ⟨hlimit, hdirect, fun uuid huuid => ?_⟩
          cases hlead.symm.trans huuid
        · rename_i lead hlead
          split at h
          · cases h
          · split at h
            · cases h
            · rename_i hmem
              cases h
              refine ⟨hlimit, hdirect, fun uuid huuid => ?_⟩
              cases hlead.symm.trans huuid
              exact not_not.mp hmem

theorem additions_orDuplicate {text : String} {p : Handler Response} {m : Addition}
    (h : p.Meets additions (fun _ m => m = .idle) (fun _ m => m = .idle) m) :
    (orDuplicate text p).Meets additions (fun _ m => m = .idle) (fun _ m => m = .idle) m := by
  refine (meets_tryCatch _ _).mpr (h.mono (fun _ _ h => h) ?_)
  rintro e m rfl
  split
  · split <;> exact rfl
  · exact rfl

theorem additions_createThread (cfg : Config) (req : CreateRequest) :
    (createThread cfg req).Meets additions (fun _ m => m = .idle) (fun _ m => m = .idle) .idle := by
  apply additions_orDuplicate
  split
  · exact rfl
  · rename_i uuids type text hcheck
    have hshape := wellShaped_of_checkCreate hcheck
    have hload : (loadAgents uuids).Meets additions (fun loaded m =>
        (∀ agents, loaded = .ok agents → agents.map (·.id) = uuids) ∧ m = .idle)
        (fun _ m => m = .idle) .idle :=
      (meets_calm ((only_loadAgents uuids).mono fun _ => Calm.of_routine)).and_yields
        (fun _ _ h => h) (yields_loadAgents uuids)
    refine meets_then _ hload ?_
    rintro loaded m ⟨hloaded, rfl⟩
    cases loaded with
    | error uuid => exact rfl
    | ok agents =>
      have hdeny := (only_deniedAgent req.user.admin agents).mono fun _ => Calm.of_routine
      refine meets_then _ (meets_calm hdeny) ?_
      rintro denied m rfl
      cases denied with
      | some denied => exact rfl
      | none =>
        refine meets_ite (fun _ => rfl) fun _ => meets_ite (fun _ => rfl) fun _ => ?_
        refine meets_ask ?_ (fun (row : Thread × Uuid × ℕ) _ => ?_) fun _ => rfl
        · change WellShaped type req.leadAgentId (agents.map (·.id))
          rw [hloaded agents rfl]
          exact hshape
        · have hdispatch : ∀ opts, Only Calm (dispatchToAgents cfg opts) := fun opts =>
            only_dispatchToAgents cfg opts (fun _ => rfl) fun _ => .of_delivering
          exact meets_calm (only_bind (hdispatch _) fun _ => only_pure _)

theorem additions_addParticipants (threadId : Uuid) (add : List Uuid) :
    (addParticipants threadId add).Meets additions (fun _ m => m = .idle) (fun _ m => m = .idle)
      .idle := by
  refine meets_then (fun _ (m : Addition) => m = .idle ∨ m = .adding threadId) ?_ ?_
  · refine meets_forM (I := fun (m : Addition) => m = .idle ∨ m = .adding threadId) (.inl rfl) ?_
    rintro agentUuid _ m (rfl | rfl)
    · exact ⟨trivial, fun _ _ => .inr rfl, fun _ => rfl⟩
    · exact ⟨rfl, fun _ _ => .inr rfl, fun _ => rfl⟩
  · rintro _ m (rfl | rfl)
    · refine meets_ask trivial (fun (rows : List Uuid) _ => ?_) fun _ => rfl
      exact meets_ite (fun _ => ⟨trivial, fun _ _ => rfl, fun _ => rfl⟩) fun _ => rfl
    · refine meets_ask rfl (fun (rows : List Uuid) _ => ?_) fun _ => rfl
      change Meets additions
        (if 1 < rows.length then (query (.promoteThread threadId) : Handler Unit) else pure ()) _ _
        (if 1 < rows.length then Addition.promoting threadId else .idle)
      by_cases hmany : 1 < rows.length
      · rw [if_pos hmany, if_pos hmany]
        exact ⟨rfl, fun _ _ => rfl, fun _ => rfl⟩
      · rw [if_neg hmany, if_neg hmany]
        exact rfl

theorem additions_updateParticipants (user : User) (threadId : Uuid) (add : Option (List Uuid))
    (remove : List Uuid) : (updateParticipants user threadId add remove).Meets additions
      (fun _ m => m = .idle) (fun _ m => m = .idle) .idle := by
  have hfinish : Only Calm (finishParticipants threadId remove) :=
    (only_finishParticipants threadId remove).mono fun _ => .of_closing
  refine (meets_tryCatch _ _).mpr (Meets.mono ?_ (fun _ _ h => h) fun _ _ h => h)
  have howner := (only_isThreadOwner threadId user.sub user.admin).mono fun _ => Calm.of_routine
  refine meets_then _ (meets_calm howner) ?_
  rintro allowed m rfl
  refine meets_ite (fun _ => rfl) fun _ => ?_
  cases add with
  | none => exact meets_calm hfinish
  | some add =>
    refine meets_ask trivial (fun (agents : List Uuid) _ => ?_) fun _ => rfl
    refine meets_ite (fun _ => rfl) fun _ => ?_
    have hdeny := (only_deniedUuid user.admin add).mono fun _ => Calm.of_routine
    refine meets_then _ (meets_calm hdeny) ?_
    rintro denied m rfl
    cases denied with
    | some denied => exact rfl
    | none =>
      refine meets_then _ (additions_addParticipants threadId add) ?_
      rintro _ m rfl
      exact meets_calm hfinish

theorem meets_additions (cfg : Config) (q : Request) :
    (q.handler cfg).Meets additions (fun _ m => m = .idle) (fun _ m => m = .idle) .idle := by
  by_cases hclosing : q.isClosing = true
  · exact meets_calm ((only_closing cfg hclosing).mono fun _ => .of_closing)
  · cases q with
    | createThread req => exact additions_createThread cfg req
    | sendMessage req => exact meets_calm ((only_sendMessage cfg req).mono fun _ => .of_posting)
    | updateParticipants user threadId add remove =>
      exact additions_updateParticipants user threadId add remove
    | callback req => exact meets_calm (calm_chatCallbackHandler cfg req)
    | _ => exact absurd rfl hclosing

end Meets

section Shapes

variable {cfg : Config} {S T : State} {s s' : Store} {c : Choice} {st : Statement} {rows : st.Rows}
  {threadId : Uuid}

/-- The limits that hold at every moment. -/
structure Store.Fitted (s : Store) : Prop where
  issued : s.Issued
  limit : ∀ threadId, (s.activeAgents threadId).length ≤ maxAgentsPerGroup
  lead : ∀ t ∈ s.threads.rows, ∀ uuid, t.leadAgentId = some uuid → uuid ∈ s.activeAgents t.id

def Store.Crowded (s : Store) (threadId : Uuid) : Prop :=
  ∃ t, s.thread? threadId = some t ∧ t.type = .direct ∧ 1 < (s.activeAgents threadId).length

/-- The rest of the program promotes the thread if it finds it crowded, before it answers. -/
def Owes (threadId : Uuid) (p : Handler Response) : Prop :=
  ∃ m : Addition, m.subject = some threadId ∧
    p.Meets additions (fun _ m => m = .idle) (fun _ m => m = .idle) m

def Promotes (S : State) (i : ℕ) (threadId : Uuid) : Prop :=
  ∃ q p, S.requests i = some (q, p) ∧ Owes threadId p

inductive Fails (S : State) : ChatMove → ℕ → Store → Prop where
  | refused {i : ℕ} {c : Choice} {q : Request} {st : Statement} {k : st.Rows → Handler Response}
      {r : Failure → Handler Response} {e : Failure}
      (waiting : S.requests i = some (q, .await st k r)) (effect : st.run S.store c = .error e) :
      Fails S (.resume i c) i S.store
  | rejected (i : ℕ) (e : Failure) : Fails S (.reject i e) i S.store
  | lost {i : ℕ} {c : Choice} {e : Failure} {q : Request} {st : Statement}
      {k : st.Rows → Handler Response} {r : Failure → Handler Response} {rows : st.Rows} {s' : Store}
      (waiting : S.requests i = some (q, .await st k r))
      (effect : st.run S.store c = .ok (rows, s')) : Fails S (.lose i c e) i s'

/-- An agent is added while there is room and leaves while it is not the lead, a lead is set
while it is active, and no failure leaves a thread crowded that nobody is to promote. -/
structure KeepsShape (S : State) (a : ChatMove) : Prop where
  added : ∀ threadId uuid c, S.taking a = some (.addParticipant threadId uuid, c) →
    uuid ∈ S.store.activeAgents threadId ∨
      (S.store.activeAgents threadId).length < maxAgentsPerGroup
  left : ∀ threadId uuid c, S.taking a = some (.leaveThread threadId uuid, c) →
    ∀ t, S.store.thread? threadId = some t → t.leadAgentId ≠ some uuid
  led : ∀ threadId title uuid c,
    S.taking a = some (.updateThread threadId title (some (some uuid)), c) →
      ∀ t, S.store.thread? threadId = some t → uuid ∈ S.store.activeAgents threadId
  failed : ∀ i s', Fails S a i s' → ∀ threadId, s'.Crowded threadId →
    ∃ j, j ≠ i ∧ Promotes S j threadId

theorem length_le_of_subset {xs : List Uuid} (h : ∀ uuid ∈ s.activeAgents threadId, uuid ∈ xs) :
    (s.activeAgents threadId).length ≤ xs.length :=
  (List.subperm_of_subset (s.activeAgents_nodup threadId) h).length_le

/-- Nobody is active yet in a thread that is not there. -/
theorem not_active_of_le (hs : s.Issued) (hle : s.nextId ≤ threadId) (uuid : Uuid) :
    uuid ∉ s.activeAgents threadId := by
  intro hactive
  obtain ⟨p, hp, hkey, _⟩ := mem_activeAgents.mp hactive
  have hthread : p.threadId = threadId := congrArg Prod.fst hkey
  exact absurd (hs.participants p hp) (by rw [hthread]; exact Nat.not_lt_of_le hle)

theorem limit_of_run (h : s.Fitted) (hrun : st.run s c = .ok (rows, s'))
    (hadd : ∀ uuid, st = .addParticipant threadId uuid →
      uuid ∈ s.activeAgents threadId ∨ (s.activeAgents threadId).length < maxAgentsPerGroup)
    (hopen : ∀ type title createdBy lead ids content key,
      st = .createThread type title createdBy lead ids content key → WellShaped type lead ids) :
    (s'.activeAgents threadId).length ≤ maxAgentsPerGroup := by
  by_cases hadds : ∃ uuid, st = .addParticipant threadId uuid
  · obtain ⟨uuid, rfl⟩ := hadds
    have hsub : ∀ id ∈ s'.activeAgents threadId, id ∈ uuid :: s.activeAgents threadId := by
      intro id hid
      obtain hold | heq | ⟨_, _, _, _, _, _, _, _, _, heq⟩ := active_of_run hrun hid
      · exact List.mem_cons_of_mem _ hold
      · cases heq
        exact List.mem_cons_self
      · cases heq
    obtain hin | hroom := hadd uuid rfl
    · apply Nat.le_trans (length_le_of_subset _) (h.limit threadId)
      intro id hid
      obtain rfl | hold := List.mem_cons.mp (hsub id hid)
      · exact hin
      · exact hold
    · have hle := length_le_of_subset hsub
      rw [List.length_cons] at hle
      omega
  · by_cases hopens : ∃ type title createdBy lead ids content key, threadId = s.nextId ∧
        st = .createThread type title createdBy lead ids content key
    · obtain ⟨type, title, createdBy, lead, ids, content, key, rfl, rfl⟩ := hopens
      apply Nat.le_trans (length_le_of_subset _) (hopen _ _ _ _ _ _ _ rfl).1
      intro id hid
      obtain hold | heq | ⟨_, _, _, _, ids', _, _, _, hid', heq⟩ := active_of_run hrun hid
      · exact absurd hold (not_active_of_le h.issued (Nat.le_refl _) id)
      · cases heq
      · cases heq
        exact hid'
    · apply Nat.le_trans (length_le_of_subset _) (h.limit threadId)
      intro id hid
      obtain hold | heq | ⟨_, _, _, _, _, _, _, hnext, _, heq⟩ := active_of_run hrun hid
      · exact hold
      · exact absurd ⟨id, heq⟩ hadds
      · exact absurd ⟨_, _, _, _, _, _, _, hnext, heq⟩ hopens

theorem lead_of_run (h : s.Fitted) (hrun : st.run s c = .ok (rows, s'))
    (hleave : ∀ threadId uuid, st = .leaveThread threadId uuid → ∀ t,
      s.thread? threadId = some t → t.leadAgentId ≠ some uuid)
    (hled : ∀ threadId title uuid, st = .updateThread threadId title (some (some uuid)) → ∀ t,
      s.thread? threadId = some t → uuid ∈ s.activeAgents threadId)
    (hopen : ∀ type title createdBy lead ids content key,
      st = .createThread type title createdBy lead ids content key → WellShaped type lead ids)
    {t' : Thread} (ht' : t' ∈ s'.threads.rows) {uuid : Uuid} (huuid : t'.leadAgentId = some uuid) :
    uuid ∈ s'.activeAgents t'.id := by
  have hkept : ∀ t ∈ s.threads.rows, t.id = t'.id → t.leadAgentId = some uuid →
      uuid ∈ s'.activeAgents t'.id := by
    intro t ht hid hlead
    have hactive : uuid ∈ s.activeAgents t'.id := hid ▸ h.lead t ht uuid hlead
    apply active_kept hrun hactive
    · rintro rfl
      exact hleave _ _ rfl t (hid ▸ Table.mem_iff_get?.mp ht) hlead
    · rintro rfl
      cases hrun
      simpa using (Table.mem_delete.mp ht').2
  cases shaped_of_run hrun ht' with
  | kept row => exact hkept t' row rfl huuid
  | reshaped t row hreshaped =>
    have hid : t.id = t'.id := hreshaped.id_eq.symm
    cases hreshaped with
    | dated => exact hkept t row hid huuid
    | promoted => exact hkept t row hid huuid
    | @updated threadId title lead _ hthread =>
      obtain - | - | uuid' := lead
      · exact hkept t row hid huuid
      · cases huuid
      · cases huuid
        subst hthread
        have hactive := hled _ _ _ rfl t (Table.mem_iff_get?.mp row)
        exact active_kept hrun hactive (fun h => nomatch h) fun h => nomatch h
  | opened type title createdBy lead ids content key hst _ hrow =>
    subst hst hrow
    have hmem : uuid ∈ ids := (hopen _ _ _ _ _ _ _ rfl).2.2 uuid huuid
    exact (mem_activeAgents_addThread hrun).mpr (.inr ⟨rfl, hmem⟩)

theorem not_direct_of_promote {rows : (Statement.promoteThread threadId).Rows}
    (hrun : (Statement.promoteThread threadId).run s c = .ok (rows, s')) {t : Thread}
    (ht : s'.thread? threadId = some t) : t.type ≠ .direct := by
  have hkey : t.id = threadId := Table.key_of_get? ht
  cases hrun
  obtain ⟨t₀, _, ⟨hnot, rfl⟩ | ⟨_, _, _, _, rfl⟩⟩ := Table.mem_patchRows (Table.mem_of_get? ht)
  · simp [hkey] at hnot
  · cases htype : t₀.type <;> simp

theorem crowded_of_run (h : s.Fitted) (hrun : st.run s c = .ok (rows, s'))
    (hopen : ∀ type title createdBy lead ids content key,
      st = .createThread type title createdBy lead ids content key → WellShaped type lead ids)
    (hcrowded : s'.Crowded threadId) :
    (s.Crowded threadId ∧ st ≠ .promoteThread threadId) ∨
      ∃ uuid, st = .addParticipant threadId uuid := by
  obtain ⟨t', ht', hdirect, hmany⟩ := hcrowded
  by_cases hadds : ∃ uuid, st = .addParticipant threadId uuid
  · exact .inr hadds
  left
  have hkey : t'.id = threadId := Table.key_of_get? ht'
  have hold : ∀ t ∈ s.threads.rows, t.id = threadId → t.type = .direct → s.Crowded threadId := by
    intro t ht hid htype
    refine ⟨t, hid ▸ Table.mem_iff_get?.mp ht, htype, Nat.lt_of_lt_of_le hmany ?_⟩
    apply length_le_of_subset
    intro id hin
    obtain hsame | heq | ⟨_, _, _, _, _, _, _, hnext, _, _⟩ := active_of_run hrun hin
    · exact hsame
    · exact absurd ⟨id, heq⟩ hadds
    · have hlt := h.issued.threads t ht
      rw [hid, hnext] at hlt
      exact absurd hlt (Nat.lt_irrefl _)
  have hnot : st ≠ .promoteThread threadId := by
    rintro rfl
    exact not_direct_of_promote hrun ht' hdirect
  cases shaped_of_run hrun (Table.mem_of_get? ht') with
  | kept row => exact ⟨hold t' row hkey hdirect, hnot⟩
  | reshaped t row hreshaped =>
    have hid : t.id = threadId := hreshaped.id_eq.symm.trans hkey
    cases hreshaped with
    | dated => exact ⟨hold t row hid hdirect, hnot⟩
    | updated => exact ⟨hold t row hid hdirect, hnot⟩
    | promoted hid' =>
      obtain rfl := hid'.symm.trans hid
      exact absurd rfl hnot
  | opened type title createdBy lead ids content key hst _ hrow =>
    subst hst hrow
    have hfew : (s'.activeAgents threadId).length ≤ ids.length := by
      apply length_le_of_subset
      intro id hin
      obtain hsame | heq | ⟨_, _, _, _, _, _, _, _, hmem, heq⟩ := active_of_run hrun hin
      · exact absurd hsame (not_active_of_le h.issued (Nat.le_of_eq hkey) id)
      · cases heq
      · cases heq
        exact hmem
    have hone := (hopen _ _ _ _ _ _ _ rfl).2.1 hdirect
    omega

theorem wellShaped_of_may {m : Addition} {type : ThreadType} {title : Option String}
    {createdBy : Uuid} {lead : Option Uuid} {ids : List Uuid} {content : String}
    {key : Option String} (h : additions.may m (.createThread type title createdBy lead ids content key)) :
    WellShaped type lead ids := by
  cases m with
  | idle => exact h
  | adding => exact h.elim
  | promoting => cases h

theorem guards_additions (cfg : Config) :
    (service cfg).Guards additions KeepsShape (fun _ => .idle) (fun _ _ m => m = .idle)
      (fun _ m => m = .idle) Store.Fitted fun _ _ => True where
  handler q := meets_additions cfg q
  fresh s hs := by
    obtain ⟨hmessages, hthreads, hparticipants⟩ := hs
    have hnone : ∀ threadId, s.activeAgents threadId = [] := by
      intro threadId
      simp [Store.activeAgents, hparticipants]
    refine ⟨⟨?_, ?_, ?_⟩, fun threadId => ?_, ?_⟩
    · simp [hthreads]
    · simp [hparticipants]
    · simp [hmessages]
    · simp [hnone]
    · simp [hthreads]
  arrive _ _ _ := trivial
  fail _ _ _ _ _ _ := trivial
  effect S a st c rows s' m _ hok htaking hmay hfitted _ hrun := by
    change st.run S.store c = .ok (rows, s') at hrun
    have hopen : ∀ type title createdBy lead ids content key,
        st = .createThread type title createdBy lead ids content key → WellShaped type lead ids := by
      rintro type title createdBy lead ids content key rfl
      exact wellShaped_of_may hmay
    refine ⟨⟨hfitted.issued.run hrun, fun threadId => ?_, fun t ht uuid huuid => ?_⟩,
      fun _ _ _ _ _ _ _ => trivial, credible_of_run hrun, trivial⟩
    · apply limit_of_run hfitted hrun _ hopen
      rintro uuid rfl
      exact hok.added _ _ _ htaking
    · apply lead_of_run hfitted hrun _ _ hopen ht huuid
      · rintro threadId uuid rfl
        exact hok.left _ _ _ htaking
      · rintro threadId title uuid rfl
        exact hok.led _ _ _ _ htaking
  around s x s' hs hx := by
    cases hx
    refine ⟨⟨hs.issued.change x, ?_, ?_⟩, fun _ _ => trivial⟩
    · cases x <;> exact hs.limit
    · cases x <;> exact hs.lead

theorem promotes_proceed {i : ℕ} {q : Request} {p : Handler Response} {j : ℕ}
    (h : Promotes S j threadId) (hji : j ≠ i) : Promotes (S.proceed i s' q p) j threadId := by
  obtain ⟨q', p', hj, howes⟩ := h
  refine ⟨q', p', ?_, howes⟩
  rw [System.proceed_requests, if_neg hji]
  exact hj

theorem promotes_self {i : ℕ} {q : Request} {p : Handler Response} (h : Owes threadId p) :
    Promotes (S.proceed i s' q p) i threadId := by
  refine ⟨q, p, ?_, h⟩
  rw [System.proceed_requests, if_pos rfl]

theorem Owes.returned {k : st.Rows → Handler Response}
    {r : Failure → Handler Response} (h : Owes threadId (.await st k r))
    (hrun : st.run S.store c = .ok (rows, s')) (hcrowded : s'.Crowded threadId) :
    Owes threadId (k rows) := by
  obtain ⟨m, hsubject, hmay, hrows, herr⟩ := h
  have hnext := hrows rows (credible_of_run hrun)
  cases m with
  | idle => cases hsubject
  | adding threadId' =>
    cases hsubject
    cases st
    case addParticipant threadId' uuid => exact ⟨.adding threadId, rfl, hnext⟩
    case getThreadAgents threadId' =>
      obtain rfl : threadId' = threadId := hmay
      cases hrun
      obtain ⟨_, _, _, hmany⟩ := hcrowded
      have hreturned : additions.returned (.adding threadId') (.getThreadAgents threadId')
          (S.store.activeAgents threadId') = .promoting threadId' := if_pos hmany
      rw [hreturned] at hnext
      exact ⟨.promoting threadId', rfl, hnext⟩
    all_goals exact hmay.elim
  | promoting threadId' =>
    cases hsubject
    obtain rfl : st = .promoteThread threadId := hmay
    obtain ⟨t, ht, hdirect, _⟩ := hcrowded
    exact absurd hdirect (not_direct_of_promote hrun ht)

/-- A thread that is crowded is to be promoted. -/
def Promised (S : State) : Prop :=
  ∀ threadId, S.store.Crowded threadId → ∃ i, Promotes S i threadId

theorem Promised.step (h : Promised S) (hreach : (server cfg).ReachableIf KeepsShape S)
    {a : ChatMove} (hok : KeepsShape S a) (hstep : (server cfg).step S a = some T) :
    Promised T := by
  have hg := (guards_additions cfg).reachable hreach
  intro threadId hcrowded
  have hfailed : ∀ {i : ℕ} {q : Request} {p : Handler Response} {store : Store},
      Fails S a i store → T = S.proceed i store q p → ∃ i, Promotes T i threadId := by
    rintro i q p store hfails rfl
    obtain ⟨j, hji, hj⟩ := hok.failed i store hfails threadId hcrowded
    exact ⟨j, promotes_proceed hj hji⟩
  cases moved_of_step hstep with
  | arrived q =>
    obtain ⟨j, q', p', hj, howes⟩ := h threadId hcrowded
    refine ⟨j, q', p', ?_, howes⟩
    rw [System.enter_requests, if_neg]
    · exact hj
    · rintro rfl
      cases (none_of_arrivals_le hreach _ (Nat.le_refl _)).symm.trans hj
  | @answered i c q st k r rows store hwait heff =>
    change st.run S.store c = .ok (rows, store) at heff
    obtain ⟨m, hm, _⟩ := hg.2 i q _ hwait
    have hopen : ∀ type title createdBy lead ids content key,
        st = .createThread type title createdBy lead ids content key → WellShaped type lead ids := by
      rintro type title createdBy lead ids content key rfl
      exact wellShaped_of_may hm.1
    obtain ⟨hold, _⟩ | ⟨uuid, rfl⟩ := crowded_of_run hg.1 heff hopen hcrowded
    · obtain ⟨j, hj⟩ := h threadId hold
      by_cases hji : j = i
      · subst hji
        obtain ⟨q', p', hj', howes⟩ := hj
        cases hwait.symm.trans hj'
        exact ⟨j, promotes_self (howes.returned heff hcrowded)⟩
      · exact ⟨j, promotes_proceed hj hji⟩
    · have hnext := hm.2.1 rows (credible_of_run heff)
      refine ⟨i, promotes_self ⟨.adding threadId, rfl, ?_⟩⟩
      cases m with
      | idle => exact hnext
      | adding threadId' =>
        obtain rfl : threadId = threadId' := hm.1
        exact hnext
      | promoting => cases hm.1
  | refused hwait heff => exact hfailed (.refused hwait heff) rfl
  | rejected hwait => exact hfailed (.rejected _ _) rfl
  | lost hwait heff => exact hfailed (.lost hwait heff) rfl
  | @around x store heff =>
    cases heff
    have hold : S.store.Crowded threadId := by cases x <;> exact hcrowded
    exact h threadId hold

theorem promised_of_reachable (hT : (server cfg).ReachableIf KeepsShape T) : Promised T := by
  apply hT.induction
  · rintro S ⟨⟨_, hthreads, _⟩, _⟩ threadId ⟨t, ht, _⟩
    have hrow := Table.mem_of_get? ht
    rw [hthreads] at hrow
    cases hrow
  · intro S a T hreach h hok hstep
    exact h.step hreach hok hstep

/-- A thread has at most eight active agents, its lead is one of them, and as long as
nobody has still to promote it, a direct thread has at most one. -/
theorem thread_shape (hT : (server cfg).ReachableIf KeepsShape T) {t : Thread}
    (ht : t ∈ T.store.threads.rows) :
    (T.store.activeAgents t.id).length ≤ maxAgentsPerGroup ∧
      (t.type = .direct → (∀ i, ¬Promotes T i t.id) → (T.store.activeAgents t.id).length ≤ 1) ∧
      ∀ uuid, t.leadAgentId = some uuid → uuid ∈ T.store.activeAgents t.id := by
  have hfitted : T.store.Fitted := ((guards_additions cfg).reachable hT).1
  refine ⟨hfitted.limit t.id, fun hdirect hnobody => ?_, hfitted.lead t ht⟩
  by_contra hmany
  have hcrowded : T.store.Crowded t.id :=
    ⟨t, Table.mem_iff_get?.mp ht, hdirect, Nat.lt_of_not_le hmany⟩
  obtain ⟨i, hi⟩ := promised_of_reachable hT t.id hcrowded
  exact hnobody i hi

/-- No statement fails, and each addition, departure and new lead fits. -/
def shapesNow (S : State) : ChatMove → Bool
  | .arrive _ | .environment _ => true
  | .resume i c =>
    match S.requests i with
    | some (_, .await st _ _) => (st.run S.store c).isOk &&
      match st with
      | .addParticipant threadId uuid => uuid ∈ S.store.activeAgents threadId ||
        (S.store.activeAgents threadId).length < maxAgentsPerGroup
      | .leaveThread threadId uuid =>
        (S.store.thread? threadId).all fun t => t.leadAgentId ≠ some uuid
      | .updateThread threadId _ (some (some uuid)) => uuid ∈ S.store.activeAgents threadId
      | _ => true
    | _ => true
  | .reject .. | .lose .. => false

theorem keepsShape_of_shapesNow {a : ChatMove} (h : shapesNow S a = true) : KeepsShape S a := by
  have htaking : ∀ {st : Statement} {c : Choice}, S.taking a = some (st, c) →
      ∃ i q k r, a = .resume i c ∧ S.requests i = some (q, .await st k r) := by
    intro st c htaking
    cases a with
    | resume i c₀ =>
      simp only [System.taking] at htaking
      split at htaking
      · rename_i q st₀ k r hwait
        cases htaking
        exact ⟨i, q, k, r, rfl, hwait⟩
      · cases htaking
    | lose => cases h
    | _ => cases htaking
  refine ⟨?_, ?_, ?_, ?_⟩
  · intro threadId uuid c hadd
    obtain ⟨i, q, k, r, rfl, hwait⟩ := htaking hadd
    simp only [shapesNow, hwait, Bool.and_eq_true, Bool.or_eq_true, decide_eq_true_eq] at h
    exact h.2
  · intro threadId uuid c hleave t ht
    obtain ⟨i, q, k, r, rfl, hwait⟩ := htaking hleave
    simp only [shapesNow, hwait, ht, Option.all_some, Bool.and_eq_true, decide_eq_true_eq] at h
    exact h.2
  · intro threadId title uuid c hlead t ht
    obtain ⟨i, q, k, r, rfl, hwait⟩ := htaking hlead
    simp only [shapesNow, hwait, Bool.and_eq_true, decide_eq_true_eq] at h
    exact h.2
  · intro i s' hfails
    cases hfails with
    | refused hwait heff => simp [shapesNow, hwait, heff, Except.isOk, Except.toBool] at h
    | rejected => cases h
    | lost => cases h

/-- The direct thread of `ann` gets `bob`, becomes a group, and `bob` its lead. -/
theorem thread_shape_sample :
    ∃ (moves : List ChatMove) (t : Thread), t ∈ (Sample.after moves).store.threads.rows ∧
      t.leadAgentId = some 2 ∧ ((Sample.after moves).store.activeAgents t.id).length ≤ 8 ∧
      2 ∈ (Sample.after moves).store.activeAgents t.id := by
  let moves := Sample.serve 0 (Sample.openThread [1]) 5 ++
    Sample.serve 1 (.updateParticipants Sample.user 10 (some [2]) []) 7 ++
    Sample.serve 2 (.updateThread Sample.user 10 none (some (some 2))) 3
  let t : Thread :=
    { id := 10, type := .group, title := none, createdBy := 3, leadAgentId := some 2
      createdAt := 0, updatedAt := 0 }
  have hT : (server Sample.config).ReachableIf KeepsShape (Sample.after moves) := by
    apply Machine.reachableIf_of_accepts (C := shapesNow) _ Sample.fresh_start (by decide +kernel)
    intro S a _ h
    exact keepsShape_of_shapesNow h
  have ht : t ∈ (Sample.after moves).store.threads.rows := by decide +kernel
  obtain ⟨hlimit, _, hlead⟩ := thread_shape hT ht
  exact ⟨moves, t, ht, rfl, hlimit, hlead 2 rfl⟩

/-- The lead of a group is removed, and stays its lead. -/
theorem removed_agent_stays_lead :
    ¬ ∀ T, (server Sample.config).Reachable T → T.Idle → ∀ t ∈ T.store.threads.rows,
      (T.store.activeAgents t.id).length ≤ maxAgentsPerGroup ∧
      (t.type = .direct → (T.store.activeAgents t.id).length ≤ 1) ∧
      ∀ uuid, t.leadAgentId = some uuid → uuid ∈ T.store.activeAgents t.id := by
  intro hall
  let req : CreateRequest :=
    { user := Sample.user, agentIds := [1, 2], message := some "hi", leadAgentId := some 1 }
  let moves := Sample.serve 0 (.createThread req) 7 ++
    Sample.serve 1 (.updateParticipants Sample.user 10 none [1]) 4
  let t : Thread :=
    { id := 10, type := .group, title := none, createdBy := 3, leadAgentId := some 1
      createdAt := 0, updatedAt := 0 }
  have hT : (server Sample.config).Reachable (Sample.after moves) :=
    Sample.reachable (by decide +kernel)
  have hidle : (Sample.after moves).Idle := idle_of_ended hT (by decide +kernel)
  have ht : t ∈ (Sample.after moves).store.threads.rows := by decide +kernel
  obtain ⟨_, _, hlead⟩ := hall _ hT hidle t ht
  exact absurd (hlead 1 rfl) (by decide +kernel)

end Shapes

end Hill90.Chat
