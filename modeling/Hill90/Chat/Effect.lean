import Hill90.Chat.Server

/-! # What a statement does to the messages

A statement leaves the messages alone, rewrites the rows its WHERE clause selects,
inserts one row or drops a thread.  The rewritings and the new rows are listed once;
every invariant about messages is proved from these lists.
-/

namespace Hill90.Chat

inductive Rewritten (now : ℕ) : Statement → Message → Message → Prop where
  | thought {id : Uuid} {b : CallbackBody} {m : Message} (seq : ℕ) (hid : m.id = id)
      (hopen : m.status.isOpen = true) : Rewritten now (.thinkMessage id b) m (b.think now seq m)
  | finished {id : Uuid} {b : CallbackBody} {m : Message} (seq : ℕ) (hid : m.id = id)
      (hopen : m.status.isOpen = true) : Rewritten now (.finishMessage id b) m (b.finish now seq m)
  | closed {c : Closer} {m : Message} (seq : ℕ) (hselects : c.selects now m = true) :
      Rewritten now (.closeMessages c) m (c.close now seq m)
  | batched {id : Uuid} {m : Message} (seq : ℕ) (hid : m.id = id) :
      Rewritten now (.setBatchComplete id) m { m with batchComplete := some true, seq }
  | chained {chainId id : Uuid} {m : Message} (hid : m.id = id) (hnone : m.chainId = none) :
      Rewritten now (.startChain chainId id) m
        { m with chainId := some chainId, chainHop := some 0 }

/-- The user message of a new thread is inserted after the thread, hence with the next id. -/
def Store.firstMessage (s : Store) (createdBy : Uuid) (content : String) (key : Option String) :
    Message :=
  { s with nextId := s.nextId + 1 }.userMessage s.nextId createdBy content key none

inductive Created (s : Store) : Statement → Message → Prop where
  | opened {type : ThreadType} {title : Option String} {createdBy : Uuid} {lead : Option Uuid}
      {agentUuids : List Uuid} {content : String} {key : Option String} :
      Created s (.createThread type title createdBy lead agentUuids content key)
        (s.firstMessage createdBy content key)
  | said {threadId userId : Uuid} {content : String} {key : Option String}
      {targets : Option (List Uuid)} {t : Thread} (hthread : s.thread? threadId = some t) :
      Created s (.createUserMessage threadId userId content key targets)
        (s.userMessage threadId userId content key targets)
  | placed {p : Placeholder} {t : Thread} {m : Message} (hthread : s.thread? p.threadId = some t)
      (hreply : s.message? p.replyTo = some m) :
      Created s (.createPlaceholder p) (s.placeholder p)

inductive Effect (s : Store) (st : Statement) (s' : Store) : Prop where
  | quiet (messages : s'.messages = s.messages)
  | patched (p : Message → Bool) (f : ℕ → Message → Message) (n : ℕ)
      (hf : ∀ n m, (f n m).id = m.id) (messages : s'.messages = s.messages.patch p f n hf)
      (rewrites : ∀ n m, p m = true → Rewritten s.now st m (f n m))
  | created (m : Message) (messages : s.messages.insert m = some s'.messages)
      (row : Created s st m) (issued : s.nextId ≤ m.id ∧ m.id < s'.nextId)
  | dropped (threadId : Uuid) (statement : st = .deleteThread threadId)
      (messages : s'.messages = s.messages.delete fun m => m.threadId = threadId)

section Inserts

variable {s s' : Store}

theorem addMessage_ok {m : Message} (h : s.addMessage m = .ok s') :
    s.messages.insert m = some s'.messages ∧ s'.nextId = s.nextId + 1 ∧
      s'.threads = s.threads ∧ s'.participants = s.participants := by
  unfold Store.addMessage at h
  split at h
  · rename_i messages hinsert
    cases h
    exact ⟨hinsert, rfl, rfl, rfl⟩
  · cases h

theorem agents_addMessage {m : Message} (h : s.addMessage m = .ok s') : s'.agents = s.agents := by
  unfold Store.addMessage at h
  split at h
  · cases h
    rfl
  · cases h

theorem addUserMessage_ok {threadId userId : Uuid} {content : String} {key : Option String}
    {targets : Option (List Uuid)} {row : Uuid × ℕ}
    (h : s.addUserMessage threadId userId content key targets = .ok (row, s')) :
    (∃ t, s.thread? threadId = some t) ∧ row = (s.nextId, s.nextSeq) ∧
      s.addMessage (s.userMessage threadId userId content key targets) = .ok s' := by
  unfold Store.addUserMessage at h
  split at h
  · cases h
  · split at h
    · cases h
    · rename_i hthread
      rw [Bool.not_eq_true, Option.isNone_eq_false_iff, Option.isSome_iff_exists] at hthread
      cases hadd : s.addMessage (s.userMessage threadId userId content key targets) with
      | error e =>
        rw [hadd] at h
        cases h
      | ok s₁ =>
        rw [hadd] at h
        cases h
        exact ⟨hthread, rfl, rfl⟩

theorem addPlaceholder_ok {p : Placeholder} {id : Uuid} (h : s.addPlaceholder p = .ok (id, s')) :
    (∃ t, s.thread? p.threadId = some t) ∧ (∃ m, s.message? p.replyTo = some m) ∧
      id = s.nextId ∧ s.addMessage (s.placeholder p) = .ok s' := by
  unfold Store.addPlaceholder at h
  split at h
  · cases h
  · rename_i hkeys
    simp only [Bool.or_eq_true, not_or, Bool.not_eq_true, Option.isNone_eq_false_iff,
      Option.isSome_iff_exists] at hkeys
    obtain ⟨⟨hthread, hreply⟩, _⟩ := hkeys
    cases hadd : s.addMessage (s.placeholder p) with
    | error e =>
      rw [hadd] at h
      cases h
    | ok s₁ =>
      rw [hadd] at h
      cases h
      exact ⟨hthread, hreply, rfl, rfl⟩

/-- The thread of a committed `POST /threads` is new, and so is its first message. -/
theorem addThread_ok {type : ThreadType} {title : Option String} {createdBy : Uuid}
    {lead : Option Uuid} {agentUuids : List Uuid} {content : String} {key : Option String}
    {thread : Thread} {row : Uuid × ℕ}
    (h : s.addThread type title createdBy lead agentUuids content key = .ok ((thread, row), s')) :
    ∃ threads participants,
      s.threads.insert thread = some threads ∧ thread.id = s.nextId ∧
      Store.addParticipants
        ({ threadId := s.nextId, participantId := createdBy, participantType := .human
           role := .owner, joinedAt := s.now } ::
          agentUuids.map fun id => { threadId := s.nextId, participantId := id
                                     participantType := .agent, joinedAt := s.now })
        s.participants = some participants ∧
      { s with threads, participants, nextId := s.nextId + 1 }.addUserMessage
        s.nextId createdBy content key none = .ok (row, s') := by
  simp only [Store.addThread] at h
  split at h
  · rename_i threads participants hthreads hparticipants
    refine ⟨threads, participants, ?_⟩
    revert h
    generalize hadd : Store.addUserMessage _ _ _ _ _ _ = result
    cases result with
    | error e => exact fun h => nomatch h
    | ok result =>
      obtain ⟨row, s₁⟩ := result
      intro h
      cases h
      exact ⟨hthreads, rfl, hparticipants, rfl⟩
  · cases h

end Inserts

theorem ofMessage_messages (s : Store) (id : Uuid) (f : Uuid → Store)
    (hf : ∀ threadId, (f threadId).messages = s.messages) :
    (s.ofMessage id f).messages = s.messages := by
  unfold Store.ofMessage
  split
  · exact hf _
  · rfl

theorem effect_of_run {s s' : Store} {c : Choice} {st : Statement} {rows : st.Rows}
    (h : st.run s c = .ok (rows, s')) : Effect s st s' := by
  cases st
  case createThread type title createdBy lead agentUuids content key =>
    obtain ⟨thread, row⟩ := rows
    obtain ⟨threads, participants, _, _, _, huser⟩ := addThread_ok h
    obtain ⟨_, _, hadd⟩ := addUserMessage_ok huser
    obtain ⟨hinsert, hid, _⟩ := addMessage_ok hadd
    refine .created (s.firstMessage createdBy content key) hinsert .opened ?_
    simp only [hid, Store.firstMessage, Store.userMessage]
    exact ⟨Nat.le_succ _, Nat.lt_succ_self _⟩
  case createUserMessage threadId userId content key targets =>
    simp only [Statement.run] at h
    cases hadd : s.addUserMessage threadId userId content key targets with
    | error e =>
      rw [hadd] at h
      cases h
    | ok result =>
      obtain ⟨row, s₁⟩ := result
      rw [hadd] at h
      cases h
      obtain ⟨⟨t, hthread⟩, _, hadd⟩ := addUserMessage_ok hadd
      obtain ⟨hinsert, hid, _⟩ := addMessage_ok hadd
      refine .created _ hinsert (.said hthread) ⟨Nat.le_refl _, ?_⟩
      exact hid ▸ Nat.lt_succ_self _
  case createPlaceholder p =>
    obtain ⟨⟨t, hthread⟩, ⟨m, hreply⟩, _, hadd⟩ := addPlaceholder_ok h
    obtain ⟨hinsert, hid, _⟩ := addMessage_ok hadd
    refine .created _ hinsert (.placed hthread hreply) ⟨Nat.le_refl _, ?_⟩
    exact hid ▸ Nat.lt_succ_self _
  case thinkMessage id b =>
    cases h
    refine .patched _ (b.think s.now) _ (fun _ _ => rfl) rfl fun n m hm => ?_
    simp only [Bool.and_eq_true, decide_eq_true_eq] at hm
    exact .thought n hm.1 hm.2
  case finishMessage id b =>
    cases h
    refine .patched _ (b.finish s.now) _ (fun _ _ => rfl) rfl fun n m hm => ?_
    simp only [Bool.and_eq_true, decide_eq_true_eq] at hm
    exact .finished n hm.1 hm.2
  case closeMessages c =>
    cases h
    exact .patched _ (c.close s.now) _ (fun _ _ => rfl) rfl fun n _ hm => .closed n hm
  case setBatchComplete id =>
    cases h
    exact .patched _ (fun seq m => { m with batchComplete := some true, seq }) _ (fun _ _ => rfl) rfl
      fun n _ hm => .batched n (by simpa using hm)
  case startChain chainId id =>
    cases h
    refine .patched _ (fun _ m => { m with chainId := some chainId, chainHop := some 0 }) _
      (fun _ _ => rfl) rfl fun n m hm => ?_
    simp only [Bool.and_eq_true, decide_eq_true_eq, Option.isNone_iff_eq_none] at hm
    exact .chained hm.1 hm.2
  case deleteThread id =>
    cases h
    exact .dropped id rfl rfl
  case touchThread id =>
    cases h
    exact .quiet (ofMessage_messages s id _ fun _ => rfl)
  case titleThread id =>
    cases h
    exact .quiet (ofMessage_messages s id _ fun _ => rfl)
  case addParticipant threadId agentUuid =>
    simp only [Statement.run, Store.addParticipant] at h
    split at h
    · cases h
    · split at h <;> (cases h; exact .quiet rfl)
  all_goals
    cases h
    exact .quiet rfl

section Rows

variable {s s' : Store} {st : Statement} {id : Uuid} {m m' : Message}

theorem Effect.row (h : Effect s st s') (hm : s.message? id = some m) :
    s'.message? id = none ∨ s'.message? id = some m ∨
      ∃ m', s'.message? id = some m' ∧ Rewritten s.now st m m' := by
  cases h with
  | quiet messages =>
    right; left
    rw [Store.message?, messages]
    exact hm
  | patched p f n hf messages rewrites =>
    right
    rw [Store.message?, messages]
    cases hp : p m with
    | false => exact .inl (Table.get?_patch_of_not hm hp)
    | true =>
      obtain ⟨i, _, hi⟩ : ∃ i, n ≤ i ∧ (s.messages.patch p f n hf).get? id =
        some (if p m then f i m else m) := Table.get?_patch hm
      rw [if_pos hp] at hi
      exact .inr ⟨f i m, hi, rewrites i m hp⟩
  | created row messages =>
    right; left
    exact Table.get?_of_insert messages hm
  | dropped threadId _ messages =>
    rw [Store.message?, messages]
    cases hget : (s.messages.delete fun m => m.threadId = threadId).get? id with
    | none => exact .inl rfl
    | some m' =>
      have hmem := (Table.mem_delete.mp (Table.mem_of_get? hget)).1
      have hkey : m'.id = m.id := (Table.key_of_get? hget).trans (Table.key_of_get? hm).symm
      rw [Table.eq_of_key_eq hmem (Table.mem_of_get? hm) hkey]
      exact .inr (.inl rfl)

/-- Where a row comes from: it was there, it was there and rewritten, or it is new. -/
theorem Effect.origin (h : Effect s st s') (hm' : m' ∈ s'.messages.rows) :
    m' ∈ s.messages.rows ∨ (∃ m ∈ s.messages.rows, Rewritten s.now st m m') ∨
      (Created s st m' ∧ s.nextId ≤ m'.id ∧ m'.id < s'.nextId) := by
  cases h with
  | quiet messages =>
    rw [messages] at hm'
    exact .inl hm'
  | patched p f n hf messages rewrites =>
    rw [messages] at hm'
    obtain ⟨m, hm, ⟨_, rfl⟩ | ⟨hp, i, _, _, rfl⟩⟩ := Table.mem_patch hm'
    · exact .inl hm
    · exact .inr (.inl ⟨m, hm, rewrites i m hp⟩)
  | created row messages hrow issued =>
    obtain hold | rfl := (Table.mem_of_insert messages).mp hm'
    · exact .inl hold
    · exact .inr (.inr ⟨hrow, issued⟩)
  | dropped threadId _ messages =>
    rw [messages] at hm'
    exact .inl (Table.mem_delete.mp hm').1

theorem Rewritten.id_eq {now : ℕ} (h : Rewritten now st m m') : m'.id = m.id := by
  cases h <;> rfl

theorem Rewritten.threadId_eq {now : ℕ} (h : Rewritten now st m m') : m'.threadId = m.threadId := by
  cases h <;> rfl

theorem Rewritten.author_eq {now : ℕ} (h : Rewritten now st m m') :
    m'.authorId = m.authorId ∧ m'.authorType = m.authorType := by
  cases h <;> exact ⟨rfl, rfl⟩

theorem Rewritten.links_eq {now : ℕ} (h : Rewritten now st m m') :
    m'.replyTo = m.replyTo ∧ m'.triggeredBy = m.triggeredBy := by
  cases h <;> exact ⟨rfl, rfl⟩

theorem Closer.isOpen_of_selects {c : Closer} {now : ℕ} (h : c.selects now m = true) :
    m.status.isOpen = true := by
  cases c <;> simp_all [Closer.selects, Status.isOpen]

theorem Rewritten.not_stale {now : ℕ} (h : Rewritten now st m m') (hm : m.status ≠ .stale) :
    m'.status ≠ .stale := by
  cases h with
  | thought seq hid hopen => exact fun heq => nomatch heq
  | finished seq hid hopen =>
    simp only [CallbackBody.finish, CallbackBody.finalStatus]
    split
    · exact fun heq => nomatch heq
    · exact fun heq => nomatch heq
  | closed seq hselects => exact fun heq => nomatch heq
  | batched seq hid => exact hm
  | chained hid hnone => exact hm

theorem Created.not_stale (h : Created s st m) : m.status ≠ .stale := by
  cases h <;> exact fun heq => nomatch heq

/-- A message that is not open is out of reach of every statement that changes its
status, its content or its error message. -/
theorem Rewritten.of_closed {now : ℕ} (h : Rewritten now st m m') (hm : m.status.isOpen = false) :
    m'.status = m.status ∧ m'.content = m.content ∧ m'.errorMessage = m.errorMessage := by
  cases h with
  | thought seq hid hopen => exact absurd hopen (by simp [hm])
  | finished seq hid hopen => exact absurd hopen (by simp [hm])
  | closed seq hselects => exact absurd (Closer.isOpen_of_selects hselects) (by simp [hm])
  | batched seq hid => exact ⟨rfl, rfl, rfl⟩
  | chained hid hnone => exact ⟨rfl, rfl, rfl⟩

end Rows

section Issued

variable {s s' : Store}

/-- Every id in the tables was issued by the generator. -/
structure Store.Issued (s : Store) : Prop where
  threads : ∀ t ∈ s.threads.rows, t.id < s.nextId
  participants : ∀ p ∈ s.participants.rows, p.threadId < s.nextId
  messages : ∀ m ∈ s.messages.rows, m.id < s.nextId ∧ m.threadId < s.nextId

theorem keptId {p : Thread → Bool} {f : ℕ → Thread → Thread} {n : ℕ} {ts : List Thread}
    {t : Thread} (h : t ∈ Table.patchRows p f n ts) (hf : ∀ n t, (f n t).id = t.id) :
    ∃ t₀ ∈ ts, t.id = t₀.id := Table.key_of_mem_patchRows h hf

theorem keptKey {p : Participant → Bool} {f : ℕ → Participant → Participant} {n : ℕ}
    {ps : List Participant} {q : Participant} (h : q ∈ Table.patchRows p f n ps)
    (hf : ∀ n q, (f n q).key = q.key) : ∃ q₀ ∈ ps, q.key = q₀.key :=
  Table.key_of_mem_patchRows h hf

/-- Where the ids of threads and participants come from; a participant is forgotten only
with its whole thread. -/
structure Frame (s s' : Store) : Prop where
  threads : ∀ t' ∈ s'.threads.rows,
    (∃ t ∈ s.threads.rows, t'.id = t.id) ∨ (s.nextId ≤ t'.id ∧ t'.id < s'.nextId)
  participants : ∀ p' ∈ s'.participants.rows,
    (∃ p ∈ s.participants.rows, p'.threadId = p.threadId) ∨
      (∃ t ∈ s.threads.rows, p'.threadId = t.id) ∨
      (s.nextId ≤ p'.threadId ∧ p'.threadId < s'.nextId)
  kept : ∀ p ∈ s.participants.rows, (∃ p' ∈ s'.participants.rows, p'.key = p.key) ∨
    (s'.thread? p.threadId = none ∧ ∀ m ∈ s'.messages.rows, m.threadId ≠ p.threadId)
  nextId : s.nextId ≤ s'.nextId

theorem Frame.of_eq (hthreads : s'.threads = s.threads)
    (hparticipants : s'.participants = s.participants) (hnext : s.nextId ≤ s'.nextId) :
    Frame s s' where
  threads t ht := .inl ⟨t, hthreads ▸ ht, rfl⟩
  participants p hp := .inl ⟨p, hparticipants ▸ hp, rfl⟩
  kept p hp := .inl ⟨p, hparticipants ▸ hp, rfl⟩
  nextId := hnext

theorem Frame.rewriteThread (s : Store) (id : Uuid) (f : Thread → Thread)
    (hf : ∀ t, (f t).id = t.id) : Frame s (s.rewriteThread id f hf) where
  threads _ ht := .inl (Table.key_of_mem_patchRows ht fun _ => hf)
  participants p hp := .inl ⟨p, hp, rfl⟩
  kept p hp := .inl ⟨p, hp, rfl⟩
  nextId := Nat.le_refl _

theorem Frame.ofMessage (s : Store) (id : Uuid) (f : Uuid → Store)
    (hf : ∀ threadId, Frame s (f threadId)) : Frame s (s.ofMessage id f) := by
  unfold Store.ofMessage
  split
  · exact hf _
  · exact .of_eq rfl rfl (Nat.le_refl _)

theorem mem_addParticipants {ps : List Participant} {t t' : Table Participant.key}
    (h : Store.addParticipants ps t = some t') {p : Participant} :
    p ∈ t'.rows ↔ p ∈ t.rows ∨ p ∈ ps := by
  induction ps generalizing t with
  | nil =>
    cases h
    simp
  | cons q ps ih =>
    obtain ⟨t₁, hinsert, hrest⟩ := Option.bind_eq_some_iff.mp h
    rw [ih hrest, Table.mem_of_insert hinsert, List.mem_cons, or_assoc]

theorem Frame.addThread {type : ThreadType} {title : Option String} {createdBy : Uuid}
    {lead : Option Uuid} {agentUuids : List Uuid} {content : String} {key : Option String}
    {row : Thread × Uuid × ℕ}
    (h : s.addThread type title createdBy lead agentUuids content key = .ok (row, s')) :
    Frame s s' := by
  obtain ⟨thread, row⟩ := row
  obtain ⟨threads, participants, hthreads, hid, hparticipants, huser⟩ := addThread_ok h
  obtain ⟨_, _, hadd⟩ := addUserMessage_ok huser
  obtain ⟨_, hnext, hthreads', hparticipants'⟩ := addMessage_ok hadd
  have hnext' : s'.nextId = s.nextId + 1 + 1 := hnext
  refine ⟨fun t ht => ?_, fun p hp => ?_, fun p hp => .inl ⟨p, ?_, rfl⟩, by grind⟩
  · rw [hthreads'] at ht
    obtain hold | rfl := (Table.mem_of_insert hthreads).mp ht
    · exact .inl ⟨t, hold, rfl⟩
    · exact .inr (by grind)
  · rw [hparticipants'] at hp
    obtain hold | hnew := (mem_addParticipants hparticipants).mp hp
    · exact .inl ⟨p, hold, rfl⟩
    · right; right
      have hthread : p.threadId = s.nextId := by
        obtain rfl | hmem := List.mem_cons.mp hnew
        · rfl
        · obtain ⟨id, _, rfl⟩ := List.mem_map.mp hmem
          rfl
      grind
  · rw [hparticipants']
    exact (mem_addParticipants hparticipants).mpr (.inl hp)

theorem frame_of_run {c : Choice} {st : Statement} {rows : st.Rows}
    (h : st.run s c = .ok (rows, s')) : Frame s s' := by
  cases st
  case createThread type title createdBy lead agentUuids content key => exact .addThread h
  case createUserMessage threadId userId content key targets =>
    simp only [Statement.run] at h
    cases hadd : s.addUserMessage threadId userId content key targets with
    | error e =>
      rw [hadd] at h
      cases h
    | ok result =>
      obtain ⟨row, s₁⟩ := result
      rw [hadd] at h
      cases h
      obtain ⟨_, _, hadd⟩ := addUserMessage_ok hadd
      obtain ⟨_, hnext, hthreads, hparticipants⟩ := addMessage_ok hadd
      have htouch := Frame.rewriteThread s₁ threadId (fun t => { t with updatedAt := s₁.now })
        fun _ => rfl
      refine ⟨fun t ht => ?_, fun p hp => .inl ⟨p, hparticipants ▸ hp, rfl⟩,
        fun p hp => .inl ⟨p, hparticipants ▸ hp, rfl⟩, ?_⟩
      · obtain ⟨t₀, ht₀, heq⟩ := keptId ht fun _ _ => rfl
        exact .inl ⟨t₀, hthreads ▸ ht₀, heq⟩
      · exact hnext ▸ Nat.le_succ _
  case createPlaceholder p =>
    obtain ⟨_, _, _, hadd⟩ := addPlaceholder_ok h
    obtain ⟨_, hnext, hthreads, hparticipants⟩ := addMessage_ok hadd
    exact .of_eq hthreads hparticipants (hnext ▸ Nat.le_succ _)
  case touchThread id =>
    cases h
    exact .ofMessage s id _ fun threadId => .rewriteThread s threadId _ _
  case titleThread id =>
    cases h
    exact .ofMessage s id _ fun threadId => .rewriteThread s threadId _ _
  case updateThread id title lead =>
    cases h
    exact .rewriteThread s id _ _
  case promoteThread id =>
    cases h
    exact .rewriteThread s id _ _
  case deleteThread id =>
    cases h
    refine ⟨fun t ht => .inl ⟨t, (Table.mem_delete.mp ht).1, rfl⟩,
      fun p hp => .inl ⟨p, (Table.mem_delete.mp hp).1, rfl⟩, fun p hp => ?_, Nat.le_refl _⟩
    by_cases hthread : p.threadId = id
    · subst hthread
      right
      constructor
      · refine Table.get?_eq_none_iff.mpr fun t ht => ?_
        simpa using (Table.mem_delete.mp ht).2
      · intro m hm
        simpa using (Table.mem_delete.mp hm).2
    · exact .inl ⟨p, Table.mem_delete.mpr ⟨hp, by simpa using hthread⟩, rfl⟩
  case leaveThread threadId agentUuid =>
    cases h
    refine ⟨fun t ht => .inl ⟨t, ht, rfl⟩, fun p hp => ?_, fun p hp => .inl ?_, Nat.le_refl _⟩
    · obtain ⟨q, hq, heq⟩ := keptKey hp fun _ _ => rfl
      exact .inl ⟨q, hq, congrArg Prod.fst heq⟩
    · exact Table.exists_of_mem_patch (f := fun _ q => { q with leftAt := some s.now })
        (fun _ _ => rfl) hp
  case addParticipant threadId agentUuid =>
    simp only [Statement.run, Store.addParticipant] at h
    split at h
    · cases h
    · rename_i hthread
      rw [Bool.not_eq_true, Option.isNone_eq_false_iff, Option.isSome_iff_exists] at hthread
      obtain ⟨t, ht⟩ := hthread
      split at h
      · rename_i participants hinsert
        cases h
        refine ⟨fun t ht => .inl ⟨t, ht, rfl⟩, fun p hp => ?_, fun p hp => .inl ⟨p, ?_, rfl⟩,
          Nat.le_refl _⟩
        · obtain hold | rfl := (Table.mem_of_insert hinsert).mp hp
          · exact .inl ⟨p, hold, rfl⟩
          · exact .inr (.inl ⟨t, Table.mem_of_get? ht, (Table.key_of_get? ht).symm⟩)
        · exact (Table.mem_of_insert hinsert).mpr (.inl hp)
      · cases h
        refine ⟨fun t ht => .inl ⟨t, ht, rfl⟩, fun p hp => ?_, fun p hp => .inl ?_, Nat.le_refl _⟩
        · obtain ⟨q, hq, heq⟩ := keptKey hp fun _ _ => rfl
          exact .inl ⟨q, hq, congrArg Prod.fst heq⟩
        · exact Table.exists_of_mem_patch (f := fun _ q => { q with leftAt := none })
            (fun _ _ => rfl) hp
  case randomUUID =>
    cases h
    exact .of_eq rfl rfl (Nat.le_succ _)
  all_goals
    cases h
    exact .of_eq rfl rfl (Nat.le_refl _)

theorem Created.threadId_lt {st : Statement} {m : Message} (h : Created s st m)
    (hs : s.Issued) (hm : s.nextId ≤ m.id) (hm' : m.id < s'.nextId) : m.threadId < s'.nextId := by
  have hthread : ∀ {id : Uuid} {t : Thread}, s.thread? id = some t → id < s'.nextId := by
    intro id t ht
    have hlt := hs.threads t (Table.mem_of_get? ht)
    have hkey : t.id = id := Table.key_of_get? ht
    grind
  cases h with
  | opened => exact Nat.lt_of_succ_lt hm'
  | said ht => exact hthread ht
  | placed ht _ => exact hthread ht

theorem Store.Issued.run (hs : s.Issued) {c : Choice} {st : Statement} {rows : st.Rows}
    (h : st.run s c = .ok (rows, s')) : s'.Issued := by
  have hframe := frame_of_run h
  have hnext := hframe.nextId
  refine ⟨fun t ht => ?_, fun p hp => ?_, fun m hm => ?_⟩
  · obtain ⟨t₀, ht₀, heq⟩ | ⟨_, hlt⟩ := hframe.threads t ht
    · exact heq ▸ Nat.lt_of_lt_of_le (hs.threads t₀ ht₀) hnext
    · exact hlt
  · obtain ⟨p₀, hp₀, heq⟩ | ⟨t, ht, heq⟩ | ⟨_, hlt⟩ := hframe.participants p hp
    · exact heq ▸ Nat.lt_of_lt_of_le (hs.participants p₀ hp₀) hnext
    · exact heq ▸ Nat.lt_of_lt_of_le (hs.threads t ht) hnext
    · exact hlt
  · obtain hold | ⟨m₀, hm₀, hrewritten⟩ | ⟨hcreated, hle, hlt⟩ := (effect_of_run h).origin hm
    · have h₀ := hs.messages m hold
      exact ⟨Nat.lt_of_lt_of_le h₀.1 hnext, Nat.lt_of_lt_of_le h₀.2 hnext⟩
    · have h₀ := hs.messages m₀ hm₀
      rw [hrewritten.id_eq, hrewritten.threadId_eq]
      exact ⟨Nat.lt_of_lt_of_le h₀.1 hnext, Nat.lt_of_lt_of_le h₀.2 hnext⟩
    · exact ⟨hlt, hcreated.threadId_lt hs hle hlt⟩

theorem Store.Issued.change (hs : s.Issued) (x : Surroundings) : (x.change s).Issued := by
  cases x <;> exact ⟨hs.threads, hs.participants, hs.messages⟩

end Issued

end Hill90.Chat
