import Hill90.Chat.Duty
import Hill90.Chat.Finality

/-! # The lineage of agent messages

Every message of an agent replies to a closed message of its thread that is still there.
The replies to one message have different authors, all of them members of the thread.  A
reply to a user is at hop zero, if it has a hop at all; a triggered reply is one hop after
its trigger and within the budget.
-/

namespace Hill90.Chat

open Program Service

def Store.isMember (s : Store) (threadId agentUuid : Uuid) : Prop :=
  ∃ q ∈ s.participants.rows, q.key = (threadId, agentUuid, .agent)

def NextHop (cfg : Config) (p : Message) (triggeredBy : Option Uuid) (hop : Option ℕ) : Prop :=
  (p.authorType = .human ∧ triggeredBy = none ∧ hop.getD 0 = 0) ∨
    (p.authorType = .agent ∧ triggeredBy = some p.id ∧ ∃ h, p.chainHop = some h ∧
      hop = some (h + 1) ∧ cfg.maxChainHops.any (fun max => ((h + 1 : ℕ) : ℤ) ≤ max) = true)

structure RepliesTo (cfg : Config) (s : Store) (m p : Message) : Prop where
  row : p ∈ s.messages.rows
  replyTo : m.replyTo = some p.id
  threadId : p.threadId = m.threadId
  closed : p.status.isOpen = false
  member : s.isMember m.threadId m.authorId
  hop : NextHop cfg p m.triggeredBy m.chainHop

structure Lineage (cfg : Config) (s : Store) : Prop where
  issued : s.Issued
  human : ∀ m ∈ s.messages.rows, m.authorType = .human → m.status.isOpen = false
  linked : ∀ m ∈ s.messages.rows, m.chainId.isSome = m.chainHop.isSome
  parent : ∀ m ∈ s.messages.rows, m.authorType = .agent → ∃ p, RepliesTo cfg s m p
  siblings : ∀ m ∈ s.messages.rows, ∀ m' ∈ s.messages.rows, m.authorType = .agent →
    m'.authorType = .agent → m.replyTo = m'.replyTo → m.authorId = m'.authorId → m.id = m'.id

structure Placed (cfg : Config) (s : Store) (row : Placeholder) (p : Message) : Prop where
  parent : p ∈ s.messages.rows
  replyTo : row.replyTo = p.id
  threadId : p.threadId = row.threadId
  closed : p.status.isOpen = false
  member : s.isMember row.threadId row.agentId
  hop : NextHop cfg p (row.chain.bind (·.2.2)) (row.chain.bind (·.2.1))
  linked : (row.chain.map (·.1)).isSome = (row.chain.bind (·.2.1)).isSome
  fresh : ∀ c ∈ s.messages.rows, c.authorType = .agent → c.replyTo = some row.replyTo →
    c.authorId ≠ row.agentId

section Run

variable {cfg : Config} {s s' : Store} {c : Choice} {st : Statement} {rows : st.Rows}
  {m m' p p' : Message} {threadId agentUuid : Uuid}

theorem Rewritten.linked {now : ℕ} (h : Rewritten now st m m')
    (hm : m.chainId.isSome = m.chainHop.isSome) : m'.chainId.isSome = m'.chainHop.isSome := by
  cases h <;> first | exact hm | rfl

/-- A hop is set once. -/
theorem Rewritten.hop {now : ℕ} (h : Rewritten now st m m')
    (hm : m.chainId.isSome = m.chainHop.isSome) :
    m'.chainHop = m.chainHop ∨ (m.chainHop = none ∧ m'.chainHop = some 0) := by
  cases h with
  | chained hid hnone =>
    right
    rw [hnone] at hm
    exact ⟨Option.isNone_iff_eq_none.mp (by simpa using hm.symm), rfl⟩
  | _ => exact .inl rfl

theorem row_of_run (hrun : st.run s c = .ok (rows, s')) (hp : p ∈ s.messages.rows)
    (hm : m ∈ s'.messages.rows) (hthread : p.threadId = m.threadId) :
    ∃ p' ∈ s'.messages.rows, p' = p ∨ Rewritten s.now st p p' := by
  cases effect_of_run hrun with
  | quiet messages =>
    rw [messages]
    exact ⟨p, hp, .inl rfl⟩
  | patched q f n hf messages rewrites =>
    obtain ⟨p', hp', hid⟩ := Table.exists_of_mem_patch (p := q) (n := n) hf hp
    rw [messages]
    refine ⟨p', hp', ?_⟩
    obtain ⟨p₀, hp₀, ⟨_, rfl⟩ | ⟨hq, i, _, _, rfl⟩⟩ := Table.mem_patch hp'
    · exact .inl (Table.eq_of_key_eq hp₀ hp hid)
    · obtain rfl := Table.eq_of_key_eq hp₀ hp ((hf i p₀).symm.trans hid)
      exact .inr (rewrites i p₀ hq)
  | created row messages => exact ⟨p, (Table.mem_of_insert messages).mpr (.inl hp), .inl rfl⟩
  | dropped threadId hst messages =>
    rw [messages] at hm ⊢
    refine ⟨p, Table.mem_delete.mpr ⟨hp, ?_⟩, .inl rfl⟩
    rw [hthread]
    exact (Table.mem_delete.mp hm).2

theorem member_of_run (hrun : st.run s c = .ok (rows, s')) (h : s.isMember threadId agentUuid) :
    s'.isMember threadId agentUuid ∨
      (s'.thread? threadId = none ∧ ∀ m ∈ s'.messages.rows, m.threadId ≠ threadId) := by
  obtain ⟨q, hq, hkey⟩ := h
  have hthread : q.threadId = threadId := congrArg Prod.fst hkey
  obtain ⟨q', hq', hkey'⟩ | hdropped := (frame_of_run hrun).kept q hq
  · exact .inl ⟨q', hq', hkey'.trans hkey⟩
  · exact .inr (hthread ▸ hdropped)

/-- A message of an agent was there, or is the placeholder just inserted. -/
theorem source_of_run (hrun : st.run s c = .ok (rows, s')) (hm : m ∈ s'.messages.rows)
    (htype : m.authorType = .agent) :
    (∃ m₀ ∈ s.messages.rows, m₀.id = m.id ∧ m₀.replyTo = m.replyTo ∧ m₀.authorId = m.authorId ∧
      m₀.authorType = .agent) ∨ ∃ row, st = .createPlaceholder row ∧ m = s.placeholder row := by
  obtain hold | ⟨m₀, hm₀, hrewritten⟩ | ⟨hcreated, _⟩ := (effect_of_run hrun).origin hm
  · exact .inl ⟨m, hold, rfl, rfl, rfl, htype⟩
  · exact .inl ⟨m₀, hm₀, hrewritten.id_eq.symm, hrewritten.links_eq.1.symm,
      hrewritten.author_eq.1.symm, hrewritten.author_eq.2.symm.trans htype⟩
  · cases hcreated with
    | opened => cases htype
    | said => cases htype
    | @placed row => exact .inr ⟨row, rfl, rfl⟩

theorem NextHop.rewritten {now : ℕ} (h : NextHop cfg p m.triggeredBy m.chainHop)
    (hm : m.chainId.isSome = m.chainHop.isSome) (hp : p.chainId.isSome = p.chainHop.isSome)
    (hm' : m' = m ∨ Rewritten now st m m') (hp' : p' = p ∨ Rewritten now st p p') :
    NextHop cfg p' m'.triggeredBy m'.chainHop := by
  have hid : p'.id = p.id ∧ p'.authorType = p.authorType := by
    obtain rfl | hp' := hp'
    · exact ⟨rfl, rfl⟩
    · exact ⟨hp'.id_eq, hp'.author_eq.2⟩
  have hhop : p'.chainHop = p.chainHop ∨ (p.chainHop = none ∧ p'.chainHop = some 0) := by
    obtain rfl | hp' := hp'
    · exact .inl rfl
    · exact hp'.hop hp
  have htrigger : m'.triggeredBy = m.triggeredBy := by
    obtain rfl | hm' := hm'
    · rfl
    · exact hm'.links_eq.2
  have hown : m'.chainHop = m.chainHop ∨ (m.chainHop = none ∧ m'.chainHop = some 0) := by
    obtain rfl | hm' := hm'
    · exact .inl rfl
    · exact hm'.hop hm
  rw [NextHop, hid.1, hid.2, htrigger]
  obtain ⟨htype, hnone, hzero⟩ | ⟨htype, hsome, n, hn, hnext, hmax⟩ := h
  · refine .inl ⟨htype, hnone, ?_⟩
    obtain heq | ⟨_, heq⟩ := hown
    · rw [heq]
      exact hzero
    · rw [heq]
      rfl
  · refine .inr ⟨htype, hsome, n, ?_, ?_, hmax⟩
    · obtain heq | ⟨heq, _⟩ := hhop
      · exact heq.trans hn
      · cases heq.symm.trans hn
    · obtain heq | ⟨heq, _⟩ := hown
      · exact heq.trans hnext
      · cases heq.symm.trans hnext

/-- Any statement keeps the lineage whose placeholder, if it inserts one, continues it. -/
theorem Lineage.run (h : Lineage cfg s) (hrun : st.run s c = .ok (rows, s'))
    (hplace : ∀ row, st = .createPlaceholder row → ∃ p, Placed cfg s row p) : Lineage cfg s' := by
  have horigin := fun {m : Message} (hm : m ∈ s'.messages.rows) => (effect_of_run hrun).origin hm
  refine ⟨h.issued.run hrun, fun m hm htype => ?_, fun m hm => ?_, fun m hm htype => ?_, ?_⟩
  · obtain hold | ⟨m₀, hm₀, hrewritten⟩ | ⟨hcreated, _⟩ := horigin hm
    · exact h.human m hold htype
    · have hclosed := h.human m₀ hm₀ (hrewritten.author_eq.2.symm.trans htype)
      rw [(hrewritten.of_closed hclosed).1]
      exact hclosed
    · cases hcreated with
      | opened => rfl
      | said => rfl
      | placed => cases htype
  · obtain hold | ⟨m₀, hm₀, hrewritten⟩ | ⟨hcreated, _⟩ := horigin hm
    · exact h.linked m hold
    · exact hrewritten.linked (h.linked m₀ hm₀)
    · cases hcreated with
      | opened => rfl
      | said => rfl
      | @placed row =>
        obtain ⟨p, hp⟩ := hplace row rfl
        exact hp.linked
  · have hkeep : ∀ m₀ ∈ s.messages.rows, m = m₀ ∨ Rewritten s.now st m₀ m →
        ∃ p, RepliesTo cfg s' m p := by
      intro m₀ hm₀ hfrom
      have hsame : m.threadId = m₀.threadId ∧ m.replyTo = m₀.replyTo ∧
          m.authorId = m₀.authorId ∧ m.authorType = m₀.authorType := by
        obtain rfl | hrewritten := hfrom
        · exact ⟨rfl, rfl, rfl, rfl⟩
        · exact ⟨hrewritten.threadId_eq, hrewritten.links_eq.1, hrewritten.author_eq⟩
      obtain ⟨hthread, hreply, hauthor, htype₀⟩ := hsame
      obtain ⟨p, hp⟩ := h.parent m₀ hm₀ (htype₀.symm.trans htype)
      obtain ⟨p', hp', hpfrom⟩ := row_of_run hrun hp.row hm (hp.threadId.trans hthread.symm)
      have hpsame : p'.id = p.id ∧ p'.threadId = p.threadId ∧ p'.status.isOpen = false := by
        obtain rfl | hrewritten := hpfrom
        · exact ⟨rfl, rfl, hp.closed⟩
        · refine ⟨hrewritten.id_eq, hrewritten.threadId_eq, ?_⟩
          rw [(hrewritten.of_closed hp.closed).1]
          exact hp.closed
      refine ⟨p', hp', ?_, ?_, hpsame.2.2, ?_, ?_⟩
      · rw [hreply, hp.replyTo, hpsame.1]
      · rw [hpsame.2.1, hp.threadId, hthread]
      · rw [hthread, hauthor]
        obtain hmember | ⟨_, hgone⟩ := member_of_run hrun hp.member
        · exact hmember
        · exact absurd hthread (hgone m hm)
      · exact hp.hop.rewritten (h.linked m₀ hm₀) (h.linked p hp.row) hfrom hpfrom
    obtain hold | ⟨m₀, hm₀, hrewritten⟩ | ⟨hcreated, _⟩ := horigin hm
    · exact hkeep m hold (.inl rfl)
    · exact hkeep m₀ hm₀ (.inr hrewritten)
    · cases hcreated with
      | opened => cases htype
      | said => cases htype
      | @placed row =>
        obtain ⟨p, hp⟩ := hplace row rfl
        obtain ⟨p', hp', hpfrom⟩ := row_of_run hrun hp.parent hm hp.threadId
        obtain rfl : p' = p := by
          obtain heq | hrewritten := hpfrom
          · exact heq
          · cases hrewritten
        refine ⟨p', hp', congrArg some hp.replyTo, hp.threadId, hp.closed, ?_, hp.hop⟩
        obtain hmember | ⟨_, hgone⟩ := member_of_run hrun hp.member
        · exact hmember
        · exact absurd rfl (hgone _ hm)
  · intro m hm m' hm' htype htype' hreply hauthor
    obtain ⟨m₀, hm₀, hid, hreply₀, hauthor₀, htype₀⟩ | ⟨row, hst, rfl⟩ :=
      source_of_run hrun hm htype
    · obtain ⟨m₁, hm₁, hid', hreply₁, hauthor₁, htype₁⟩ | ⟨row, hst, rfl⟩ :=
        source_of_run hrun hm' htype'
      · rw [← hid, ← hid']
        apply h.siblings m₀ hm₀ m₁ hm₁ htype₀ htype₁
        · rw [hreply₀, hreply₁, hreply]
        · rw [hauthor₀, hauthor₁, hauthor]
      · obtain ⟨p, hp⟩ := hplace row hst
        exact absurd (hauthor₀.trans hauthor) (hp.fresh m₀ hm₀ htype₀ (hreply₀.trans hreply))
    · obtain ⟨m₁, hm₁, _, hreply₁, hauthor₁, htype₁⟩ | ⟨row', hst', rfl⟩ :=
        source_of_run hrun hm' htype'
      · obtain ⟨p, hp⟩ := hplace row hst
        exact absurd (hauthor₁.trans hauthor.symm)
          (hp.fresh m₁ hm₁ htype₁ (hreply₁.trans hreply.symm))
      · rfl

end Run

/-- What a duty has read about its message is still so. -/
structure Describes (d : Duty) (p : Message) : Prop where
  closed : p.status.isOpen = false
  human : p.authorType = .human ↔ d.human = true
  thread : ∀ threadId, d.thread = some threadId → p.threadId = threadId
  absent : d.link = .absent → p.chainId = none
  linked : ∀ chainId hop, d.link = .linked chainId hop →
    p.chainId = some chainId ∧ p.chainHop = some hop

/-- A duty agrees with the store: the members it met are members as long as their thread
is there, and the authors of the replies so far are the agents it is done with. -/
structure Served (s : Store) (d : Duty) : Prop where
  members : ∀ g ∈ d.members, g.1 < s.nextId ∧ ∀ t, s.thread? g.1 = some t → s.isMember g.1 g.2
  target : ∀ id, d.target = some id → id < s.nextId
  replies : ∀ id, d.target = some id → ∀ m ∈ s.messages.rows, m.authorType = .agent →
    m.replyTo = some id → m.authorId ∈ d.done
  reads : ∀ id p, d.target = some id → s.message? id = some p → Describes d p

section Served

variable {cfg : Config} {s s' : Store} {c : Choice} {st : Statement} {rows : st.Rows}
  {m p p' : Message} {d d' : Duty}

theorem Describes.rewritten {now : ℕ} (h : Describes d p) (hp : Rewritten now st p p')
    (hchain : ∀ chainId, st = .startChain chainId p.id → d.link = .unknown) : Describes d p' := by
  have hsame : p'.chainId = p.chainId ∧ p'.chainHop = p.chainHop ∨ d.link = .unknown := by
    cases hp with
    | chained hid _ =>
      right
      rw [← hid] at hchain
      exact hchain _ rfl
    | _ => exact .inl ⟨rfl, rfl⟩
  refine ⟨?_, ?_, ?_, ?_, ?_⟩
  · rw [(hp.of_closed h.closed).1]
    exact h.closed
  · rw [hp.author_eq.2]
    exact h.human
  · rw [hp.threadId_eq]
    exact h.thread
  · intro habsent
    obtain ⟨hid, _⟩ | hunknown := hsame
    · exact hid.trans (h.absent habsent)
    · cases hunknown.symm.trans habsent
  · intro chainId hop hlinked
    obtain ⟨hid, hhop⟩ | hunknown := hsame
    · rw [hid, hhop]
      exact h.linked chainId hop hlinked
    · cases hunknown.symm.trans hlinked

/-- A duty survives the statements of others, and those of its own that it is prepared for. -/
theorem Served.run (h : Served s d) (hrun : st.run s c = .ok (rows, s'))
    (hplace : ∀ row, st = .createPlaceholder row → d.target = some row.replyTo →
      row.agentId ∈ d.done)
    (hchain : ∀ chainId id, st = .startChain chainId id → d.target = some id → d.link = .unknown) :
    Served s' d := by
  have hframe := frame_of_run hrun
  refine ⟨fun g hg => ?_, fun id hid => ?_, fun id hid m hm htype hreply => ?_, fun id p hid hp => ?_⟩
  · obtain ⟨hlt, hmember⟩ := h.members g hg
    refine ⟨Nat.lt_of_lt_of_le hlt hframe.nextId, fun t ht => ?_⟩
    have hkey : t.id = g.1 := Table.key_of_get? ht
    obtain ⟨t₀, ht₀, hid⟩ | ⟨hle, _⟩ := hframe.threads t (Table.mem_of_get? ht)
    · have hget : s.thread? g.1 = some t₀ := by
        rw [← hkey, hid]
        exact Table.mem_iff_get?.mp ht₀
      obtain hstays | ⟨hgone, _⟩ := member_of_run hrun (hmember t₀ hget)
      · exact hstays
      · cases hgone.symm.trans ht
    · rw [hkey] at hle
      exact absurd hlt (Nat.not_lt_of_le hle)
  · exact Nat.lt_of_lt_of_le (h.target id hid) hframe.nextId
  · obtain ⟨m₀, hm₀, _, hreply₀, hauthor₀, htype₀⟩ | ⟨row, hst, rfl⟩ := source_of_run hrun hm htype
    · rw [← hauthor₀]
      exact h.replies id hid m₀ hm₀ htype₀ (hreply₀.trans hreply)
    · exact hplace row hst (hid.trans hreply.symm)
  · have hkey : p.id = id := Table.key_of_get? hp
    obtain hold | ⟨p₀, hp₀, hrewritten⟩ | ⟨_, hle, _⟩ :=
      (effect_of_run hrun).origin (Table.mem_of_get? hp)
    · exact h.reads id p hid (hkey ▸ Table.mem_iff_get?.mp hold)
    · have hkey₀ : p₀.id = id := hrewritten.id_eq.symm.trans hkey
      have hreads := h.reads id p₀ hid (hkey₀ ▸ Table.mem_iff_get?.mp hp₀)
      exact hreads.rewritten hrewritten fun chainId hst => hchain chainId p₀.id hst (hkey₀ ▸ hid)
    · rw [hkey] at hle
      exact absurd (h.target id hid) (Nat.not_lt_of_le hle)

variable (cfg) in
theorem served_rejected (h : Served s d) (st : Statement) (e : Failure) :
    Served s ((duties cfg).rejected d st e) := by
  cases st
  case startChain chainId id =>
    refine ⟨h.members, h.target, h.replies, fun id p hid hp => ?_⟩
    have hreads := h.reads id p hid hp
    refine ⟨hreads.closed, hreads.human, hreads.thread, ?_, ?_⟩
    · intro hlink
      cases hlink
    · intro chainId hop hlink
      cases hlink
  case createPlaceholder row =>
    refine ⟨h.members, h.target, ?_, ?_⟩
    · intro id hid m hm htype hreply
      exact Set.mem_insert_of_mem _ (h.replies id hid m hm htype hreply)
    · intro id p hid hp
      have hreads := h.reads id p hid hp
      exact ⟨hreads.closed, hreads.human, hreads.thread, hreads.absent, hreads.linked⟩
  all_goals exact h

variable (cfg) in
theorem served_lost (h : Served s d) (hrun : st.run s c = .ok (rows, s')) (e : Failure) :
    Served s' ((duties cfg).rejected d st e) := by
  apply (served_rejected cfg h st e).run hrun
  · rintro row rfl _
    exact Set.mem_insert _ _
  · rintro chainId id rfl _
    rfl

theorem Served.meet (h : Served s d) {threadId : Uuid} {uuids : List Uuid}
    (hlt : uuids ≠ [] → threadId < s.nextId) (hmember : ∀ uuid ∈ uuids, s.isMember threadId uuid) :
    Served s (d.meet threadId uuids) := by
  refine ⟨?_, h.target, h.replies, ?_⟩
  · rintro g (hg | ⟨hthread, huuid⟩)
    · exact h.members g hg
    · rw [hthread]
      exact ⟨hlt (List.ne_nil_of_mem huuid), fun _ _ => hmember g.2 huuid⟩
  · intro id p hid hp
    have hreads := h.reads id p hid hp
    exact ⟨hreads.closed, hreads.human, hreads.thread, hreads.absent, hreads.linked⟩

theorem Served.take (h : Served s d) {id : Uuid} {human : Bool} {thread : Option Uuid}
    (hlt : id < s.nextId)
    (hreplies : ∀ m ∈ s.messages.rows, m.authorType = .agent → m.replyTo ≠ some id)
    (hreads : ∀ p, s.message? id = some p → p.status.isOpen = false ∧
      (p.authorType = .human ↔ human = true) ∧ ∀ threadId, thread = some threadId →
        p.threadId = threadId) : Served s (d.take id human thread) := by
  refine ⟨h.members, ?_, ?_, ?_⟩
  · intro id' hid'
    cases hid'
    exact hlt
  · intro id' hid' m hm htype hreply
    cases hid'
    exact absurd hreply (hreplies m hm htype)
  · intro id' p hid' hp
    cases hid'
    obtain ⟨hclosed, hhuman, hthread⟩ := hreads p hp
    refine ⟨hclosed, hhuman, hthread, ?_, ?_⟩
    · intro hlink
      cases hlink
    · intro chainId hop hlink
      cases hlink

theorem isMember_of_active {threadId uuid : Uuid} (h : uuid ∈ s.activeAgents threadId) :
    s.isMember threadId uuid := by
  obtain ⟨q, hq, rfl⟩ := List.mem_map.mp h
  obtain ⟨hrow, hactive⟩ := List.mem_filter.mp hq
  simp only [Store.isActiveAgent, Bool.and_eq_true, decide_eq_true_eq] at hactive
  refine ⟨q, hrow, ?_⟩
  rw [Participant.key, hactive.1.1, hactive.1.2]

theorem Served.meetActive (h : Served s d) (hs : s.Issued) {threadId : Uuid} {uuids : List Uuid}
    (huuids : ∀ uuid ∈ uuids, uuid ∈ s.activeAgents threadId) : Served s (d.meet threadId uuids) := by
  apply h.meet
  · intro hne
    obtain ⟨uuid, huuid⟩ := List.exists_mem_of_ne_nil uuids hne
    obtain ⟨q, hq, hkey⟩ := isMember_of_active (huuids uuid huuid)
    have hthread : q.threadId = threadId := congrArg Prod.fst hkey
    exact hthread ▸ hs.participants q hq
  · intro uuid huuid
    exact isMember_of_active (huuids uuid huuid)

theorem Lineage.replyTo_ne (h : Lineage cfg s) {id : Uuid}
    (hid : ∀ p, s.message? id = some p → p.status.isOpen = true) :
    ∀ m ∈ s.messages.rows, m.authorType = .agent → m.replyTo ≠ some id := by
  intro m hm htype hreply
  obtain ⟨p, hp⟩ := h.parent m hm htype
  have hkey : p.id = id := Option.some.inj (hp.replyTo.symm.trans hreply)
  have hopen := hid p (hkey ▸ Table.mem_iff_get?.mp hp.row)
  rw [hp.closed] at hopen
  cases hopen

theorem Store.Issued.message?_eq_none (h : s.Issued) {id : Uuid} (hid : s.nextId ≤ id) :
    s.message? id = none := by
  refine Table.get?_eq_none_iff.mpr ?_
  rintro m hm rfl
  exact absurd (h.messages m hm).1 (Nat.not_lt_of_le hid)

theorem created_of_run (hs : s.Issued) (hrun : st.run s c = .ok (rows, s'))
    (hm : m ∈ s'.messages.rows) (hid : s.nextId ≤ m.id) : Created s st m := by
  obtain hold | ⟨m₀, hm₀, hrewritten⟩ | ⟨hcreated, _⟩ := (effect_of_run hrun).origin hm
  · exact absurd (hs.messages m hold).1 (Nat.not_lt_of_le hid)
  · rw [hrewritten.id_eq] at hid
    exact absurd (hs.messages m₀ hm₀).1 (Nat.not_lt_of_le hid)
  · exact hcreated

theorem Served.said (hs : Lineage cfg s) (h : Served s' d) (hrun : st.run s c = .ok (rows, s'))
    {id threadId : Uuid} (hid : s.nextId ≤ id) (hlt : id < s'.nextId)
    (hst : ∀ row, st ≠ .createPlaceholder row)
    (hcreated : ∀ m, Created s st m → m.threadId = threadId ∧ m.authorType = .human ∧
      m.status.isOpen = false) : Served s' (d.take id true (some threadId)) := by
  apply h.take hlt
  · intro m hm htype
    obtain ⟨m₀, hm₀, _, hreply, _, htype₀⟩ | ⟨row, hrow, _⟩ := source_of_run hrun hm htype
    · rw [← hreply]
      apply hs.replyTo_ne _ m₀ hm₀ htype₀
      intro p hp
      cases (hs.issued.message?_eq_none hid).symm.trans hp
    · exact absurd hrow (hst row)
  · intro p hp
    have hkey : p.id = id := Table.key_of_get? hp
    have hnew := created_of_run hs.issued hrun (Table.mem_of_get? hp) (hkey ▸ hid)
    obtain ⟨hthread, hhuman, hclosed⟩ := hcreated p hnew
    refine ⟨hclosed, ⟨fun _ => rfl, fun _ => hhuman⟩, ?_⟩
    rintro _ ⟨⟩
    exact hthread

theorem Served.finished (hs : Lineage cfg s) {id : Uuid} {b : CallbackBody}
    (h : Served (s.finish id b).2 d) (hne : (s.finish id b).1 ≠ 0) :
    Served (s.finish id b).2 (d.take id false none) := by
  have hrun : (Statement.finishMessage id b).run s {} = .ok (s.finish id b) := rfl
  obtain ⟨m, hget, hopen⟩ := exists_open_of_finish hne
  have hsettled := settled_of_finish hs.issued hne
  apply h.take hsettled.issued
  · intro m' hm' htype'
    obtain ⟨m₀, hm₀, _, hreply, _, htype₀⟩ | ⟨row, hrow, _⟩ := source_of_run hrun hm' htype'
    · rw [← hreply]
      apply hs.replyTo_ne _ m₀ hm₀ htype₀
      intro p hp
      cases hget.symm.trans hp
      exact hopen
    · cases hrow
  · intro p hp
    refine ⟨hsettled.closed p hp, ?_, fun _ hthread => nomatch hthread⟩
    have hagent : m.authorType = .agent := by
      cases htype : m.authorType with
      | agent => rfl
      | human =>
        rw [hs.human m (Table.mem_of_get? hget) htype] at hopen
        cases hopen
    have hkey : p.id = m.id := (Table.key_of_get? hp).trans (Table.key_of_get? hget).symm
    have htype : p.authorType = .agent := by
      obtain hold | ⟨m₀, hm₀, hrewritten⟩ | ⟨_, hle, _⟩ :=
        (effect_of_run hrun).origin (Table.mem_of_get? hp)
      · rw [Table.eq_of_key_eq hold (Table.mem_of_get? hget) hkey]
        exact hagent
      · have hsame := Table.eq_of_key_eq hm₀ (Table.mem_of_get? hget)
          (hrewritten.id_eq.symm.trans hkey)
        rw [hrewritten.author_eq.2, hsame]
        exact hagent
      · rw [hkey] at hle
        exact absurd (hs.issued.messages m (Table.mem_of_get? hget)).1 (Nat.not_lt_of_le hle)
    rw [htype]
    exact ⟨fun heq => (nomatch heq), fun heq => (nomatch heq)⟩

theorem Served.read (hs : Lineage cfg s) (h : Served s d) {id : Uuid} (hid : d.target = some id)
    (hp : s.message? id = some p) :
    Served s (d.read ⟨p.threadId, p.authorId, p.chainId, p.chainHop⟩) := by
  refine ⟨h.members, h.target, h.replies, fun id' p' hid' hp' => ?_⟩
  obtain rfl : id = id' := Option.some.inj (hid.symm.trans hid')
  obtain rfl : p = p' := Option.some.inj (hp.symm.trans hp')
  have hreads := h.reads id p hid hp
  have hlinked := hs.linked p (Table.mem_of_get? hp)
  refine ⟨hreads.closed, hreads.human, ?_, ?_, ?_⟩
  · rintro _ ⟨⟩
    rfl
  · intro hlink
    cases hchain : p.chainId with
    | none => rfl
    | some chainId => simp [Duty.read, hchain] at hlink
  · intro chainId hop hlink
    cases hchain : p.chainId with
    | none => simp [Duty.read, hchain] at hlink
    | some chainId' =>
      rw [hchain] at hlinked
      obtain ⟨hop', hhop⟩ := Option.isSome_iff_exists.mp hlinked.symm
      simp only [Duty.read, hchain, hhop] at hlink
      cases hlink
      exact ⟨rfl, hhop⟩

theorem Served.chain (h : Served s d) {chainId id : Uuid} (hid : d.target = some id)
    (hlink : d.link = .absent) : Served (s.startChain chainId id) { d with link := .linked chainId 0 } := by
  have hrun : (Statement.startChain chainId id).run s {} = .ok ((), s.startChain chainId id) := rfl
  have hlost := served_lost { chatCallbackToken := none } h hrun (.error "")
  refine ⟨hlost.members, hlost.target, hlost.replies, fun id' p hid' hp => ?_⟩
  have hreads := hlost.reads id' p hid' hp
  refine ⟨hreads.closed, hreads.human, hreads.thread, ?_, ?_⟩
  · intro heq
    cases heq
  · intro chainId' hop heq
    cases heq
    obtain rfl : id = id' := Option.some.inj (hid.symm.trans hid')
    have hkey : p.id = id := Table.key_of_get? hp
    obtain ⟨p₀, hp₀, ⟨hnot, rfl⟩ | ⟨_, i, _, _, rfl⟩⟩ :=
      Table.mem_patchRows (Table.mem_of_get? hp)
    · have habsent := (h.reads id p hid (hkey ▸ Table.mem_iff_get?.mp hp₀)).absent hlink
      simp [hkey, habsent] at hnot
    · exact ⟨rfl, rfl⟩

theorem served_returned (hs : Lineage cfg s) (h : Served s d) (hmay : (duties cfg).may d st)
    (hrun : st.run s c = .ok (rows, s')) : Served s' ((duties cfg).returned d st rows) := by
  have hkeep : (∀ row, st ≠ .createPlaceholder row) → (∀ chainId id, st ≠ .startChain chainId id) →
      Served s' d := fun hplace hchain =>
    h.run hrun (fun row hst => absurd hst (hplace row)) fun chainId id hst =>
      absurd hst (hchain chainId id)
  cases st
  case getThreadAgents threadId =>
    cases hrun
    exact h.meetActive hs.issued fun _ huuid => huuid
  case resolveAgentSlugs threadId slugs =>
    cases hrun
    apply h.meetActive hs.issued
    intro uuid huuid
    have hsub : (List.map _ _).Sublist (s.activeAgents threadId) :=
      filterMap_values (f := fun id => (s.agent? id).bind fun a =>
        if a.agentId ∈ slugs then some (a.agentId, id) else none) ?_ (s.activeAgents threadId)
    · exact hsub.subset huuid
    · intro id e he
      obtain ⟨a, _, he⟩ := Option.bind_eq_some_iff.mp he
      split at he <;> cases he
      rfl
  case createThread type title createdBy lead agentUuids content key =>
    have hbase := hkeep (fun _ h => by cases h) fun _ _ h => by cases h
    obtain ⟨thread, id, seq⟩ := rows
    obtain ⟨threads, participants, _, hthread, hparticipants, huser⟩ := addThread_ok hrun
    obtain ⟨_, hrow, hadd⟩ := addUserMessage_ok huser
    obtain ⟨_, hnext, _, hparticipants'⟩ := addMessage_ok hadd
    have hid : id = s.nextId + 1 := congrArg Prod.fst hrow
    have hnext' : s'.nextId = s.nextId + 1 + 1 := hnext
    have hmeet : Served s' (d.meet thread.id agentUuids) := by
      apply hbase.meet
      · intro _
        grind
      · intro uuid huuid
        rw [hthread, Store.isMember, hparticipants']
        let member : Participant :=
          { threadId := s.nextId, participantId := uuid, participantType := .agent, joinedAt := s.now }
        refine ⟨member, (mem_addParticipants hparticipants).mpr (.inr ?_), rfl⟩
        exact List.mem_cons_of_mem _ (List.mem_map.mpr ⟨uuid, huuid, rfl⟩)
    refine hmeet.said hs hrun (hid ▸ Nat.le_succ _) (by grind) (fun _ h => by cases h) fun m hm => ?_
    cases hm
    exact ⟨hthread.symm, rfl, rfl⟩
  case createUserMessage threadId userId content key targets =>
    have hbase := hkeep (fun _ h => by cases h) fun _ _ h => by cases h
    have hrow : rows.1 = s.nextId ∧ s'.nextId = s.nextId + 1 := by
      simp only [Statement.run] at hrun
      cases hadd : s.addUserMessage threadId userId content key targets with
      | error e =>
        rw [hadd] at hrun
        cases hrun
      | ok result =>
        rw [hadd] at hrun
        cases hrun
        obtain ⟨_, hrow, hadd⟩ := addUserMessage_ok hadd
        obtain ⟨_, hnext, _⟩ := addMessage_ok hadd
        exact ⟨congrArg Prod.fst hrow, hnext⟩
    refine hbase.said hs hrun (Nat.le_of_eq hrow.1.symm) ?_ (fun _ h => by cases h) fun m hm => ?_
    · rw [hrow.1, hrow.2]
      exact Nat.lt_succ_self _
    · cases hm
      exact ⟨rfl, rfl, rfl⟩
  case finishMessage id b =>
    have hbase := hkeep (fun _ h => by cases h) fun _ _ h => by cases h
    cases hrun
    simp only [duties]
    split
    · exact hbase
    · exact hbase.finished hs ‹_›
  case selectTrigger id =>
    cases hrun
    cases hget : s.message? id with
    | none => simpa [duties, hget] using h
    | some p =>
      simp only [duties, Option.map_some]
      split
      · exact h.read hs ‹_› hget
      · exact h
  case startChain chainId id =>
    cases hrun
    exact h.chain hmay.1 hmay.2
  case createPlaceholder row => exact served_lost cfg h hrun (.error "")
  all_goals exact hkeep (fun _ h => by cases h) fun _ _ h => by cases h

end Served

section Keeps

/-- The lineage, with at most one duty for each message. -/
structure Dutiful (cfg : Config) (s : Store) (modes : ℕ → Option Duty) : Prop where
  lineage : Lineage cfg s
  served : ∀ i d, modes i = some d → Served s d
  unique : ∀ i j d d' id, modes i = some d → modes j = some d' → d.target = some id →
    d'.target = some id → i = j

variable {cfg : Config} {s s' : Store} {modes : ℕ → Option Duty} {i : ℕ} {d d' : Duty}
  {c : Choice} {st : Statement} {rows : st.Rows}

/-- A step of request `i` that takes no duty of another request. -/
theorem Dutiful.turn (h : Dutiful cfg s modes) (hd : modes i = some d) (hs' : Lineage cfg s')
    (hothers : ∀ j e, j ≠ i → modes j = some e → Served s' e) (hserved : Served s' d')
    (htarget : ∀ id, d'.target = some id → d.target = some id ∨
      ∀ j e, modes j = some e → e.target ≠ some id) :
    Dutiful cfg s' (Function.update modes i (some d')) := by
  have hnew : ∀ j e id, j ≠ i → modes j = some e → e.target = some id → d'.target ≠ some id := by
    intro j e id hne hj hid hid'
    obtain hold | hnobody := htarget id hid'
    · exact hne (h.unique j i e d id hj hd hid hold)
    · exact hnobody j e hj hid
  refine ⟨hs', fun j e hj => ?_, fun j k e e' id hj hk hid hid' => ?_⟩
  · obtain ⟨_, rfl⟩ | ⟨hne, hj⟩ := update_eq_some hj
    · exact hserved
    · exact hothers j e hne hj
  · obtain ⟨hji, heq⟩ | ⟨hji, hj⟩ := update_eq_some hj
    · obtain ⟨hki, _⟩ | ⟨hki, hk⟩ := update_eq_some hk
      · exact hji.trans hki.symm
      · exact absurd (heq ▸ hid) (hnew k e' id hki hk hid')
    · obtain ⟨_, heq⟩ | ⟨_, hk⟩ := update_eq_some hk
      · exact absurd (heq ▸ hid') (hnew j e id hji hj hid)
      · exact h.unique j k e e' id hj hk hid hid'

theorem isMember_of_served (hserved : Served s d) {row : Placeholder}
    (hmember : (row.threadId, row.agentId) ∈ d.members) {t : Thread}
    (hthread : s.thread? row.threadId = some t) : s.isMember row.threadId row.agentId :=
  (hserved.members _ hmember).2 t hthread

/-- The placeholders a duty permits continue the lineage. -/
theorem placed_of_may (hserved : Served s d) {row : Placeholder}
    (hmay : (duties cfg).may d (.createPlaceholder row)) {id : Uuid}
    (hrun : s.addPlaceholder row = .ok (id, s')) : ∃ p, Placed cfg s row p := by
  obtain ⟨htarget, hthread, hfresh, hmember, hcarries⟩ := hmay
  obtain ⟨⟨t, ht⟩, ⟨p, hp⟩, _⟩ := addPlaceholder_ok hrun
  have hkey : p.id = row.replyTo := Table.key_of_get? hp
  have hreads := hserved.reads row.replyTo p htarget hp
  refine ⟨p, Table.mem_of_get? hp, hkey.symm, hreads.thread _ hthread, hreads.closed,
    isMember_of_served hserved hmember ht, ?_, ?_, fun m hm htype hreply hauthor => ?_⟩
  · obtain ⟨hhuman, hchain⟩ | ⟨hhuman, chainId, hop, hlink, hchain, hmax⟩ := hcarries
    · rw [hchain]
      exact .inl ⟨hreads.human.mpr hhuman, rfl, rfl⟩
    · rw [hchain, ← hkey]
      refine .inr ⟨?_, rfl, hop, (hreads.linked chainId hop hlink).2, rfl, hmax⟩
      cases htype : p.authorType with
      | agent => rfl
      | human => cases hhuman.symm.trans (hreads.human.mp htype)
  · obtain ⟨_, hchain⟩ | ⟨_, chainId, hop, _, hchain, _⟩ := hcarries
    · rw [hchain]
      rfl
    · rw [hchain]
      rfl
  · exact hfresh (hauthor ▸ hserved.replies row.replyTo htarget m hm htype hreply)

theorem Dutiful.run (h : Dutiful cfg s modes) (hd : modes i = some d)
    (hmay : (duties cfg).may d st) (hrun : st.run s c = .ok (rows, s')) (hserved : Served s' d')
    (htarget : ∀ id, d'.target = some id → d.target = some id ∨
      ∀ j e, modes j = some e → e.target ≠ some id) :
    Dutiful cfg s' (Function.update modes i (some d')) := by
  apply h.turn hd _ _ hserved htarget
  · apply h.lineage.run hrun
    rintro row rfl
    exact placed_of_may (h.served i d hd) hmay hrun
  · intro j e hne hj
    apply (h.served j e hj).run hrun
    · rintro row rfl htarget'
      exact absurd (h.unique j i e d _ hj hd htarget' hmay.1) hne
    · rintro chainId id rfl htarget'
      exact absurd (h.unique j i e d _ hj hd htarget' hmay.1) hne

theorem target_rejected (d : Duty) (st : Statement) (e : Failure) :
    ((duties cfg).rejected d st e).target = d.target := by
  cases st <;> rfl

theorem Dutiful.target_returned (h : Dutiful cfg s modes) (hrun : st.run s c = .ok (rows, s'))
    {id : Uuid} (hid : ((duties cfg).returned d st rows).target = some id) :
    d.target = some id ∨ ∀ j e, modes j = some e → e.target ≠ some id := by
  have hunissued : s.nextId ≤ id → ∀ j e, modes j = some e → e.target ≠ some id := by
    intro hle j e hj htarget
    exact absurd ((h.served j e hj).target id htarget) (Nat.not_lt_of_le hle)
  cases st
  case createThread type title createdBy lead agentUuids content key =>
    right
    obtain ⟨thread, id', seq⟩ := rows
    obtain ⟨_, _, _, _, _, huser⟩ := addThread_ok hrun
    obtain ⟨_, hrow, _⟩ := addUserMessage_ok huser
    cases hid
    have hid' : id' = s.nextId + 1 := congrArg Prod.fst hrow
    exact hunissued (hid' ▸ Nat.le_succ _)
  case createUserMessage threadId userId content key targets =>
    right
    simp only [Statement.run] at hrun
    cases hadd : s.addUserMessage threadId userId content key targets with
    | error e =>
      rw [hadd] at hrun
      cases hrun
    | ok result =>
      rw [hadd] at hrun
      cases hrun
      obtain ⟨_, hrow, _⟩ := addUserMessage_ok hadd
      cases hid
      exact hunissued (Nat.le_of_eq (congrArg Prod.fst hrow).symm)
  case finishMessage id' b =>
    simp only [duties] at hid
    split at hid
    · exact .inl hid
    · rename_i hne
      right
      cases hid
      cases hrun
      obtain ⟨m, hget, hopen⟩ := exists_open_of_finish (b := b) hne
      intro j e hj htarget
      rw [((h.served j e hj).reads id m htarget hget).closed] at hopen
      cases hopen
  case selectTrigger id' =>
    left
    cases rows with
    | none => exact hid
    | some t =>
      simp only [duties] at hid
      split at hid <;> exact hid
  all_goals exact .inl hid

theorem coherent_of_run (hs : Lineage cfg s) (hrun : st.run s c = .ok (rows, s')) :
    coherent st rows := by
  cases st
  case selectTrigger id =>
    cases hrun
    cases hget : s.message? id with
    | none => simp [coherent]
    | some p =>
      rintro t ht hnone
      have hlinked := hs.linked p (Table.mem_of_get? hget)
      obtain rfl : _ = t := Option.some.inj ht
      have hnone' : p.chainId = none := hnone
      rw [hnone'] at hlinked
      exact Option.isNone_iff_eq_none.mp (by simpa using hlinked.symm)
  all_goals trivial

theorem keeps_duties (cfg : Config) :
    (service cfg).Keeps (duties cfg) (fun _ => .start) (fun _ _ _ => True) (Dutiful cfg) where
  handler q := meets_duties cfg q
  fresh s hs := by
    obtain ⟨hmessages, hthreads, hparticipants⟩ := hs
    refine ⟨⟨⟨?_, ?_, ?_⟩, ?_, ?_, ?_, ?_⟩, ?_, ?_⟩
    · simp [hthreads]
    · simp [hparticipants]
    · simp [hmessages]
    · simp [hmessages]
    · simp [hmessages]
    · simp [hmessages]
    · simp [hmessages]
    · intro i d hd
      cases hd
    · intro i j d d' id hd
      cases hd
  arrive s modes i q h hnone := by
    have hserved : Served s .start :=
      ⟨fun _ hg => hg.elim, fun _ hid => (nomatch hid), fun _ hid => (nomatch hid),
        fun _ _ hid => (nomatch hid)⟩
    refine ⟨h.lineage, fun j e hj => ?_, fun j k e e' id hj hk hid hid' => ?_⟩
    · obtain ⟨_, rfl⟩ | ⟨_, hj⟩ := update_eq_some hj
      · exact hserved
      · exact h.served j e hj
    · obtain ⟨_, rfl⟩ | ⟨_, hj⟩ := update_eq_some hj
      · cases hid
      · obtain ⟨_, rfl⟩ | ⟨_, hk⟩ := update_eq_some hk
        · cases hid'
        · exact h.unique j k e e' id hj hk hid hid'
  answer s modes i d c st rows s' h hd hmay hrun := by
    refine ⟨⟨credible_of_run hrun, coherent_of_run h.lineage hrun⟩, ?_⟩
    apply h.run hd hmay hrun
    · exact served_returned h.lineage (h.served i d hd) hmay hrun
    · intro id hid
      exact h.target_returned hrun hid
  fail s modes i d st e h hd hmay := by
    apply h.turn hd h.lineage (fun j e' _ hj => h.served j e' hj)
    · exact served_rejected cfg (h.served i d hd) st e
    · intro id hid
      rw [target_rejected] at hid
      exact .inl hid
  lose s modes i d c st rows s' e h hd hmay hrun := by
    apply h.run hd hmay hrun
    · exact served_lost cfg (h.served i d hd) hrun e
    · intro id hid
      rw [target_rejected] at hid
      exact .inl hid
  around s modes x s' h hx := by
    cases hx
    have hlineage : Lineage cfg (x.change s) := by
      cases x <;> exact ⟨h.lineage.issued.change _, h.lineage.human, h.lineage.linked,
        fun m hm htype => by
          obtain ⟨p, hp⟩ := h.lineage.parent m hm htype
          exact ⟨p, hp.row, hp.replyTo, hp.threadId, hp.closed, hp.member, hp.hop⟩,
        h.lineage.siblings⟩
    refine ⟨hlineage, fun i d hd => ?_, h.unique⟩
    have hserved := h.served i d hd
    cases x <;> exact ⟨hserved.members, hserved.target, hserved.replies, hserved.reads⟩

end Keeps

end Hill90.Chat
