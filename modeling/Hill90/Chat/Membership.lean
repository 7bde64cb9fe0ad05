import Hill90.Chat.Effect

/-! # What a statement does to threads and their agents

A thread keeps its id; its type changes by promotion only, and its lead only where the
thread is updated.  An agent becomes active by being added or with a new thread, and
stays so until it leaves or its thread is deleted.
-/

namespace Hill90.Chat

section Threads

variable {s s' : Store} {st : Statement} {t t' : Thread}

inductive Reshaped (now : ℕ) : Statement → Thread → Thread → Prop where
  | dated {st : Statement} {t : Thread} (title : Option String) (updatedAt : ℕ) :
      Reshaped now st t { t with title, updatedAt }
  | updated {id : Uuid} {title : Option (Option String)} {lead : Option (Option Uuid)} {t : Thread}
      (hid : t.id = id) :
      Reshaped now (.updateThread id title lead) t
        { t with
          updatedAt := now, title := title.getD t.title, leadAgentId := lead.getD t.leadAgentId }
  | promoted {id : Uuid} {t : Thread} (hid : t.id = id) :
      Reshaped now (.promoteThread id) t
        { t with type := if t.type = .direct then .group else t.type }

inductive Shaped (s : Store) (st : Statement) (t' : Thread) : Prop where
  | kept (row : t' ∈ s.threads.rows)
  | reshaped (t : Thread) (row : t ∈ s.threads.rows) (rewritten : Reshaped s.now st t t')
  | opened (type : ThreadType) (title : Option String) (createdBy : Uuid) (lead : Option Uuid)
      (agentUuids : List Uuid) (content : String) (key : Option String)
      (statement : st = .createThread type title createdBy lead agentUuids content key)
      (fresh : s.thread? s.nextId = none)
      (row : t' = { id := s.nextId, type, title, createdBy, leadAgentId := lead
                    createdAt := s.now, updatedAt := s.now })

theorem Reshaped.id_eq {now : ℕ} (h : Reshaped now st t t') : t'.id = t.id := by
  cases h <;> rfl

theorem mem_rewriteThread {id : Uuid} {f : Thread → Thread} {hf : ∀ t, (f t).id = t.id}
    (h : t' ∈ (s.rewriteThread id f hf).threads.rows) :
    t' ∈ s.threads.rows ∨ ∃ t ∈ s.threads.rows, t.id = id ∧ t' = f t := by
  obtain ⟨t, ht, ⟨_, rfl⟩ | ⟨hid, _, _, _, rfl⟩⟩ := Table.mem_patchRows h
  · exact .inl ht
  · exact .inr ⟨t, ht, by simpa using hid, rfl⟩

theorem mem_ofMessage {id : Uuid} {f : Uuid → Store}
    (hf : ∀ threadId, t' ∈ (f threadId).threads.rows → Shaped s st t')
    (h : t' ∈ (s.ofMessage id f).threads.rows) : Shaped s st t' := by
  unfold Store.ofMessage at h
  split at h
  · exact hf _ h
  · exact .kept h

theorem shaped_of_dated {id : Uuid} {f : Thread → Thread} {hf : ∀ t, (f t).id = t.id}
    (hdated : ∀ t, ∃ title updatedAt, f t = { t with title, updatedAt })
    (h : t' ∈ (s.rewriteThread id f hf).threads.rows) : Shaped s st t' := by
  obtain hold | ⟨t, ht, _, rfl⟩ := mem_rewriteThread h
  · exact .kept hold
  · obtain ⟨title, updatedAt, heq⟩ := hdated t
    exact .reshaped t ht (heq ▸ .dated title updatedAt)

theorem shaped_of_run {c : Choice} {rows : st.Rows} (hrun : st.run s c = .ok (rows, s'))
    (ht : t' ∈ s'.threads.rows) : Shaped s st t' := by
  cases st
  case createThread type title createdBy lead agentUuids content key =>
    obtain ⟨thread, row⟩ := rows
    have hrow : thread = { id := s.nextId, type, title, createdBy, leadAgentId := lead
                           createdAt := s.now, updatedAt := s.now } := by
      simp only [Statement.run, Store.addThread] at hrun
      split at hrun
      · revert hrun
        generalize Store.addUserMessage _ _ _ _ _ _ = result
        cases result with
        | error e =>
          intro h
          cases h
        | ok result =>
          intro h
          cases h
          rfl
      · cases hrun
    obtain ⟨threads, participants, hthreads, hid, _, huser⟩ := addThread_ok hrun
    obtain ⟨_, _, hadd⟩ := addUserMessage_ok huser
    obtain ⟨_, _, hthreads', _⟩ := addMessage_ok hadd
    rw [hthreads'] at ht
    obtain hold | rfl := (Table.mem_of_insert hthreads).mp ht
    · exact .kept hold
    · refine .opened type title createdBy lead agentUuids content key rfl ?_ hrow
      rw [← hid]
      exact Table.fresh_of_insert hthreads
  case createUserMessage threadId userId content key targets =>
    simp only [Statement.run] at hrun
    cases hadd : s.addUserMessage threadId userId content key targets with
    | error e =>
      rw [hadd] at hrun
      cases hrun
    | ok result =>
      obtain ⟨row, s₁⟩ := result
      rw [hadd] at hrun
      cases hrun
      obtain ⟨_, _, hadd⟩ := addUserMessage_ok hadd
      obtain ⟨_, _, hthreads, _⟩ := addMessage_ok hadd
      obtain hold | ⟨t, hold, _, rfl⟩ := mem_rewriteThread ht
      · exact .kept (hthreads ▸ hold)
      · exact .reshaped t (hthreads ▸ hold) (.dated _ _)
  case createPlaceholder p =>
    obtain ⟨_, _, _, hadd⟩ := addPlaceholder_ok hrun
    obtain ⟨_, _, hthreads, _⟩ := addMessage_ok hadd
    exact .kept (hthreads ▸ ht)
  case touchThread id =>
    cases hrun
    exact mem_ofMessage (fun threadId => shaped_of_dated fun t => ⟨_, _, rfl⟩) ht
  case titleThread id =>
    cases hrun
    exact mem_ofMessage (fun threadId => shaped_of_dated fun t => ⟨_, _, rfl⟩) ht
  case updateThread id title lead =>
    cases hrun
    obtain hold | ⟨t, hold, hid, rfl⟩ := mem_rewriteThread ht
    · exact .kept hold
    · exact .reshaped t hold (.updated hid)
  case promoteThread id =>
    cases hrun
    obtain hold | ⟨t, hold, hid, rfl⟩ := mem_rewriteThread ht
    · exact .kept hold
    · exact .reshaped t hold (.promoted hid)
  case deleteThread id =>
    cases hrun
    exact .kept (Table.mem_delete.mp ht).1
  case addParticipant threadId agentUuid =>
    simp only [Statement.run, Store.addParticipant] at hrun
    split at hrun
    · cases hrun
    · split at hrun <;> (cases hrun; exact .kept ht)
  all_goals
    cases hrun
    exact .kept ht

theorem type_of_run {c : Choice} {rows : st.Rows} (hs : s.Issued) {id : Uuid} {t : Thread}
    (hrun : st.run s c = .ok (rows, s')) (ht : s.thread? id = some t)
    (ht' : s'.thread? id = some t') :
    t'.type = t.type ∨ (st = .promoteThread id ∧ t'.type = .group) := by
  have hkey : t.id = id := Table.key_of_get? ht
  have hkey' : t'.id = id := Table.key_of_get? ht'
  have hsame : ∀ t₀ ∈ s.threads.rows, t₀.id = id → t₀ = t := fun t₀ ht₀ hid =>
    Table.eq_of_key_eq ht₀ (Table.mem_of_get? ht) (hid.trans hkey.symm)
  cases shaped_of_run hrun (Table.mem_of_get? ht') with
  | kept row =>
    rw [hsame t' row hkey']
    exact .inl rfl
  | reshaped t₀ row hreshaped =>
    obtain rfl := hsame t₀ row (hreshaped.id_eq.symm.trans hkey')
    cases hreshaped with
    | dated | updated => exact .inl rfl
    | promoted hid =>
      obtain rfl := hid.symm.trans hkey
      cases htype : t₀.type with
      | group => exact .inl (by simp)
      | direct => exact .inr ⟨rfl, by simp⟩
  | opened _ _ _ _ _ _ _ _ _ hrow =>
    have hlt := hs.threads t (Table.mem_of_get? ht)
    subst hrow
    exact absurd hlt (by rw [hkey, ← hkey']; exact Nat.lt_irrefl _)

theorem exists_of_rewriteThread {id : Uuid} {f : Thread → Thread} {hf : ∀ t, (f t).id = t.id}
    (ht : t ∈ s.threads.rows) : ∃ t' ∈ (s.rewriteThread id f hf).threads.rows, t'.id = t.id :=
  Table.exists_of_mem_patch (f := fun _ => f) (fun _ => hf) ht

theorem exists_of_ofMessage {id : Uuid} {f : Uuid → Store} (ht : t ∈ s.threads.rows)
    (hf : ∀ threadId, ∃ t' ∈ (f threadId).threads.rows, t'.id = t.id) :
    ∃ t' ∈ (s.ofMessage id f).threads.rows, t'.id = t.id := by
  unfold Store.ofMessage
  split
  · exact hf _
  · exact ⟨t, ht, rfl⟩

theorem thread_kept {c : Choice} {rows : st.Rows} (hrun : st.run s c = .ok (rows, s'))
    (ht : t ∈ s.threads.rows) (hdelete : st ≠ .deleteThread t.id) :
    ∃ t' ∈ s'.threads.rows, t'.id = t.id := by
  cases st
  case createThread type title createdBy lead agentUuids content key =>
    obtain ⟨thread, row⟩ := rows
    obtain ⟨threads, participants, hthreads, _, _, huser⟩ := addThread_ok hrun
    obtain ⟨_, _, hadd⟩ := addUserMessage_ok huser
    obtain ⟨_, _, hthreads', _⟩ := addMessage_ok hadd
    rw [hthreads']
    exact ⟨t, (Table.mem_of_insert hthreads).mpr (.inl ht), rfl⟩
  case createUserMessage threadId userId content key targets =>
    simp only [Statement.run] at hrun
    cases hadd : s.addUserMessage threadId userId content key targets with
    | error e =>
      rw [hadd] at hrun
      cases hrun
    | ok result =>
      obtain ⟨row, s₁⟩ := result
      rw [hadd] at hrun
      cases hrun
      obtain ⟨_, _, hadd⟩ := addUserMessage_ok hadd
      obtain ⟨_, _, hthreads, _⟩ := addMessage_ok hadd
      exact exists_of_rewriteThread (hthreads ▸ ht)
  case createPlaceholder p =>
    obtain ⟨_, _, _, hadd⟩ := addPlaceholder_ok hrun
    obtain ⟨_, _, hthreads, _⟩ := addMessage_ok hadd
    exact ⟨t, hthreads ▸ ht, rfl⟩
  case touchThread id =>
    cases hrun
    exact exists_of_ofMessage ht fun _ => exists_of_rewriteThread ht
  case titleThread id =>
    cases hrun
    exact exists_of_ofMessage ht fun _ => exists_of_rewriteThread ht
  case updateThread id title lead =>
    cases hrun
    exact exists_of_rewriteThread ht
  case promoteThread id =>
    cases hrun
    exact exists_of_rewriteThread ht
  case deleteThread id =>
    cases hrun
    refine ⟨t, Table.mem_delete.mpr ⟨ht, ?_⟩, rfl⟩
    simp only [decide_eq_false_iff_not]
    rintro rfl
    exact hdelete rfl
  case addParticipant threadId agentUuid =>
    simp only [Statement.run, Store.addParticipant] at hrun
    split at hrun
    · cases hrun
    · split at hrun <;> (cases hrun; exact ⟨t, ht, rfl⟩)
  all_goals
    cases hrun
    exact ⟨t, ht, rfl⟩

/-- The thread of every message is there. -/
def Store.Hosted (s : Store) : Prop :=
  ∀ m ∈ s.messages.rows, ∃ t ∈ s.threads.rows, t.id = m.threadId

theorem Store.Hosted.run (h : s.Hosted) {c : Choice} {rows : st.Rows}
    (hrun : st.run s c = .ok (rows, s')) : s'.Hosted := by
  have hkept : ∀ m ∈ s'.messages.rows, ∀ t ∈ s.threads.rows, t.id = m.threadId →
      ∃ t' ∈ s'.threads.rows, t'.id = m.threadId := by
    intro m hm t ht hid
    rw [← hid]
    apply thread_kept hrun ht
    rintro rfl
    cases hrun
    simpa [hid] using (Table.mem_delete.mp hm).2
  intro m hm
  obtain hold | ⟨m₀, hm₀, hrewritten⟩ | ⟨hcreated, _⟩ := (effect_of_run hrun).origin hm
  · obtain ⟨t, ht, hid⟩ := h m hold
    exact hkept m hm t ht hid
  · obtain ⟨t, ht, hid⟩ := h m₀ hm₀
    exact hkept m hm t ht (hid.trans hrewritten.threadId_eq.symm)
  · cases hcreated with
    | @opened type title createdBy lead agentUuids content key =>
      obtain ⟨thread, row⟩ := rows
      obtain ⟨threads, participants, hthreads, hid, _, huser⟩ := addThread_ok hrun
      obtain ⟨_, _, hadd⟩ := addUserMessage_ok huser
      obtain ⟨_, _, hthreads', _⟩ := addMessage_ok hadd
      rw [hthreads']
      exact ⟨thread, (Table.mem_of_insert hthreads).mpr (.inr rfl), hid⟩
    | said hthread => exact hkept _ hm _ (Table.mem_of_get? hthread) (Table.key_of_get? hthread)
    | placed hthread => exact hkept _ hm _ (Table.mem_of_get? hthread) (Table.key_of_get? hthread)

end Threads

section Agents

variable {s s' : Store} {st : Statement} {c : Choice} {rows : st.Rows} {threadId id : Uuid}

theorem mem_activeAgents : id ∈ s.activeAgents threadId ↔
    ∃ p ∈ s.participants.rows, p.key = (threadId, id, .agent) ∧ p.leftAt = none := by
  simp only [Store.activeAgents, Store.isActiveAgent, List.mem_map, List.mem_filter,
    Bool.and_eq_true, decide_eq_true_eq, Option.isNone_iff_eq_none]
  constructor
  · rintro ⟨p, ⟨hp, ⟨hthread, htype⟩, hleft⟩, rfl⟩
    exact ⟨p, hp, by rw [Participant.key, hthread, htype], hleft⟩
  · rintro ⟨p, hp, hkey, hleft⟩
    rw [Participant.key, Prod.mk.injEq, Prod.mk.injEq] at hkey
    obtain ⟨hthread, hid, htype⟩ := hkey
    exact ⟨p, ⟨hp, ⟨hthread, htype⟩, hleft⟩, hid⟩

theorem activeAgents_eq (h : s'.participants = s.participants) :
    s'.activeAgents threadId = s.activeAgents threadId := by
  rw [Store.activeAgents, h, Store.activeAgents]

/-- Where the agents of a new thread come from. -/
theorem mem_activeAgents_addThread {type : ThreadType} {title : Option String} {createdBy : Uuid}
    {lead : Option Uuid} {agentUuids : List Uuid} {content : String} {key : Option String}
    {row : Thread × Uuid × ℕ}
    (h : s.addThread type title createdBy lead agentUuids content key = .ok (row, s')) :
    id ∈ s'.activeAgents threadId ↔
      id ∈ s.activeAgents threadId ∨ (threadId = s.nextId ∧ id ∈ agentUuids) := by
  obtain ⟨thread, row⟩ := row
  obtain ⟨threads, participants, _, _, hparticipants, huser⟩ := addThread_ok h
  obtain ⟨_, _, hadd⟩ := addUserMessage_ok huser
  obtain ⟨_, _, _, hparticipants'⟩ := addMessage_ok hadd
  rw [mem_activeAgents, mem_activeAgents, hparticipants']
  constructor
  · rintro ⟨p, hp, hkey, hleft⟩
    obtain hold | hnew := (mem_addParticipants hparticipants).mp hp
    · exact .inl ⟨p, hold, hkey, hleft⟩
    · obtain rfl | hmember := List.mem_cons.mp hnew
      · cases hkey
      · obtain ⟨uuid, huuid, rfl⟩ := List.mem_map.mp hmember
        cases hkey
        exact .inr ⟨rfl, huuid⟩
  · rintro (⟨p, hp, hkey, hleft⟩ | ⟨rfl, hid⟩)
    · exact ⟨p, (mem_addParticipants hparticipants).mpr (.inl hp), hkey, hleft⟩
    · refine ⟨_, (mem_addParticipants hparticipants).mpr (.inr (List.mem_cons_of_mem _
        (List.mem_map_of_mem hid))), rfl, rfl⟩

/-- The participants are as they were, but for a new thread, an addition, a departure and
the deletion of the thread. -/
theorem participants_of_run (hrun : st.run s c = .ok (rows, s')) :
    s'.participants = s.participants ∨
      (∃ type title createdBy lead ids content key,
        st = .createThread type title createdBy lead ids content key) ∨
      (∃ threadId id, st = .addParticipant threadId id ∨ st = .leaveThread threadId id) ∨
      ∃ threadId, st = .deleteThread threadId := by
  cases st
  case createThread => exact .inr (.inl ⟨_, _, _, _, _, _, _, rfl⟩)
  case addParticipant threadId id => exact .inr (.inr (.inl ⟨threadId, id, .inl rfl⟩))
  case leaveThread threadId id => exact .inr (.inr (.inl ⟨threadId, id, .inr rfl⟩))
  case deleteThread id => exact .inr (.inr (.inr ⟨id, rfl⟩))
  case createUserMessage threadId userId content key targets =>
    simp only [Statement.run] at hrun
    cases hadd : s.addUserMessage threadId userId content key targets with
    | error e =>
      rw [hadd] at hrun
      cases hrun
    | ok result =>
      obtain ⟨row, s₁⟩ := result
      rw [hadd] at hrun
      cases hrun
      obtain ⟨_, _, hadd⟩ := addUserMessage_ok hadd
      exact .inl (addMessage_ok hadd).2.2.2
  case createPlaceholder p =>
    obtain ⟨_, _, _, hadd⟩ := addPlaceholder_ok hrun
    exact .inl (addMessage_ok hadd).2.2.2
  case touchThread id =>
    cases hrun
    unfold Store.ofMessage
    split <;> exact .inl rfl
  case titleThread id =>
    cases hrun
    unfold Store.ofMessage
    split <;> exact .inl rfl
  all_goals
    cases hrun
    exact .inl rfl

theorem active_of_run (hrun : st.run s c = .ok (rows, s')) (h : id ∈ s'.activeAgents threadId) :
    id ∈ s.activeAgents threadId ∨ st = .addParticipant threadId id ∨
      ∃ type title createdBy lead ids content key, threadId = s.nextId ∧ id ∈ ids ∧
        st = .createThread type title createdBy lead ids content key := by
  obtain hsame | ⟨type, title, createdBy, lead, ids, content, key, rfl⟩ |
    ⟨threadId', id', rfl | rfl⟩ | ⟨threadId', rfl⟩ := participants_of_run hrun
  · rw [activeAgents_eq hsame] at h
    exact .inl h
  · obtain hold | ⟨hthread, hid⟩ := (mem_activeAgents_addThread hrun).mp h
    · exact .inl hold
    · exact .inr (.inr ⟨_, _, _, _, _, _, _, hthread, hid, rfl⟩)
  · obtain ⟨p, hp, hkey, hleft⟩ := mem_activeAgents.mp h
    simp only [Statement.run, Store.addParticipant] at hrun
    split at hrun
    · cases hrun
    · split at hrun
      · rename_i participants hinsert
        cases hrun
        obtain hold | rfl := (Table.mem_of_insert hinsert).mp hp
        · exact .inl (mem_activeAgents.mpr ⟨p, hold, hkey, hleft⟩)
        · cases hkey
          exact .inr (.inl rfl)
      · cases hrun
        obtain ⟨p₀, hp₀, ⟨_, rfl⟩ | ⟨hmatch, _, _, _, rfl⟩⟩ := Table.mem_patchRows hp
        · exact .inl (mem_activeAgents.mpr ⟨p, hp₀, hkey, hleft⟩)
        · have hkey₀ : p₀.key = (threadId', id', .agent) := by simpa using hmatch
          cases hkey₀.symm.trans hkey
          exact .inr (.inl rfl)
  · left
    obtain ⟨p, hp, hkey, hleft⟩ := mem_activeAgents.mp h
    cases hrun
    obtain ⟨p₀, hp₀, ⟨_, rfl⟩ | ⟨_, _, _, _, rfl⟩⟩ := Table.mem_patchRows hp
    · exact mem_activeAgents.mpr ⟨p, hp₀, hkey, hleft⟩
    · cases hleft
  · left
    obtain ⟨p, hp, hkey, hleft⟩ := mem_activeAgents.mp h
    cases hrun
    exact mem_activeAgents.mpr ⟨p, (Table.mem_delete.mp hp).1, hkey, hleft⟩

theorem active_kept (hrun : st.run s c = .ok (rows, s')) (h : id ∈ s.activeAgents threadId)
    (hleave : st ≠ .leaveThread threadId id) (hdelete : st ≠ .deleteThread threadId) :
    id ∈ s'.activeAgents threadId := by
  obtain hsame | ⟨type, title, createdBy, lead, ids, content, key, rfl⟩ |
    ⟨threadId', id', rfl | rfl⟩ | ⟨threadId', rfl⟩ := participants_of_run hrun
  · rw [activeAgents_eq hsame]
    exact h
  · exact (mem_activeAgents_addThread hrun).mpr (.inl h)
  · obtain ⟨p, hp, hkey, hleft⟩ := mem_activeAgents.mp h
    simp only [Statement.run, Store.addParticipant] at hrun
    split at hrun
    · cases hrun
    · split at hrun
      · rename_i participants hinsert
        cases hrun
        exact mem_activeAgents.mpr ⟨p, (Table.mem_of_insert hinsert).mpr (.inl hp), hkey, hleft⟩
      · cases hrun
        obtain ⟨_, hrow⟩ := Table.mem_patch_of_mem (n := 0)
          (p := fun p => p.key = (threadId', id', AuthorType.agent))
          (f := fun _ p => { p with leftAt := none }) (fun _ _ => rfl) hp
        refine mem_activeAgents.mpr ⟨_, hrow, ?_, ?_⟩
        · split <;> exact hkey
        · split
          · rfl
          · exact hleft
  · obtain ⟨p, hp, hkey, hleft⟩ := mem_activeAgents.mp h
    cases hrun
    obtain ⟨_, hrow⟩ := Table.mem_patch_of_mem (n := 0)
      (p := fun p => p.key = (threadId', id', AuthorType.agent))
      (f := fun _ p => { p with leftAt := some s.now }) (fun _ _ => rfl) hp
    refine mem_activeAgents.mpr ⟨_, hrow, ?_, ?_⟩
    · split <;> exact hkey
    · split
      · rename_i hsame
        rw [decide_eq_true_eq, hkey] at hsame
        cases hsame
        exact absurd rfl hleave
      · exact hleft
  · obtain ⟨p, hp, hkey, hleft⟩ := mem_activeAgents.mp h
    cases hrun
    refine mem_activeAgents.mpr ⟨p, Table.mem_delete.mpr ⟨hp, ?_⟩, hkey, hleft⟩
    have hthread : p.threadId = threadId := congrArg Prod.fst hkey
    rw [decide_eq_false_iff_not, hthread]
    rintro rfl
    exact hdelete rfl

end Agents

end Hill90.Chat
