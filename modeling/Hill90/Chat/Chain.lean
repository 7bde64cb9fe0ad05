import Mathlib.Data.Set.Card
import Hill90.Foundation.Branching
import Hill90.Chat.Lineage

/-! # Chains of agents are bounded

The replies to a message form a tree over the messages of its thread.  Its width is
bounded by the agents of the thread, since the replies to one message have different
authors, and its depth by the hop budget.
-/

namespace Hill90.Chat

open Finset

def Store.threadAgents (s : Store) (threadId : Uuid) : Finset Uuid :=
  ((s.participants.rows.filter fun q =>
    q.threadId = threadId && q.participantType = .agent).map (·.participantId)).toFinset

def Store.repliesTo (s : Store) (id : Uuid) : Finset Uuid :=
  ((s.messages.rows.filter fun m =>
    m.authorType = .agent && m.replyTo = some id).map (·.id)).toFinset

def Store.Triggers (s : Store) : Uuid → Uuid → Prop :=
  Relation.TransGen fun id id' => id' ∈ s.repliesTo id

/-- The hops a chain may make: none, if the budget is negative or not a number. -/
def Config.hopBudget (cfg : Config) : ℕ := (cfg.maxChainHops.getD 0).toNat

/-- The most messages that hop budget and agents allow below one message. -/
def chainBound (hops agents : ℕ) : ℕ := ∑ k ∈ range (hops + 1), agents ^ (k + 1)

section Bound

variable {cfg : Config} {s : Store} {id id' : Uuid} {m p : Message}

theorem mem_repliesTo : id' ∈ s.repliesTo id ↔
    ∃ m ∈ s.messages.rows, m.authorType = .agent ∧ m.replyTo = some id ∧ m.id = id' := by
  simp [Store.repliesTo, and_assoc]

theorem mem_threadAgents {threadId uuid : Uuid} :
    uuid ∈ s.threadAgents threadId ↔ s.isMember threadId uuid := by
  simp only [Store.threadAgents, Store.isMember, List.mem_toFinset, List.mem_map, List.mem_filter,
    Bool.and_eq_true, decide_eq_true_eq, Participant.key, Prod.mk.injEq]
  constructor
  · rintro ⟨q, ⟨hq, hthread, htype⟩, huuid⟩
    exact ⟨q, hq, hthread, huuid, htype⟩
  · rintro ⟨q, hq, hthread, huuid, htype⟩
    exact ⟨q, ⟨hq, hthread, htype⟩, huuid⟩

/-- A message stands on level zero if a user wrote it, else one below its hop. -/
def Message.level (m : Message) : ℕ :=
  match m.authorType with
  | .human => 0
  | .agent => m.chainHop.getD 0 + 1

theorem level_reply (h : RepliesTo cfg s m p) (hm : m.authorType = .agent) :
    m.level = p.level + 1 := by
  obtain ⟨htype, _, hzero⟩ | ⟨htype, _, hop, hp, hnext, _⟩ := h.hop
  · simp [Message.level, htype, hm, hzero]
  · simp [Message.level, htype, hm, hp, hnext]

theorem level_le (hs : Lineage cfg s) (hm : m ∈ s.messages.rows) : m.level ≤ cfg.hopBudget + 1 := by
  cases htype : m.authorType with
  | human => simp [Message.level, htype]
  | agent =>
    obtain ⟨p, hp⟩ := hs.parent m hm htype
    obtain ⟨_, _, hzero⟩ | ⟨_, _, hop, _, hnext, hmax⟩ := hp.hop
    · simp [Message.level, htype, hzero]
    · obtain ⟨max, hsome, hle⟩ : ∃ max, cfg.maxChainHops = some max ∧ ((hop + 1 : ℕ) : ℤ) ≤ max := by
        simpa [Option.any_eq_true] using hmax
      simp only [Message.level, htype, hnext, Config.hopBudget, hsome, Option.getD_some]
      omega

/-- The replies to a message have different authors, all of them agents of its thread. -/
theorem card_repliesTo_le (hs : Lineage cfg s) (hp : p ∈ s.messages.rows) :
    (s.repliesTo p.id).card ≤ (s.threadAgents p.threadId).card := by
  let author : Uuid → Uuid := fun id => (s.message? id).elim 0 (·.authorId)
  have hrow : ∀ id ∈ s.repliesTo p.id, ∃ m ∈ s.messages.rows, m.id = id ∧ m.authorType = .agent ∧
      m.replyTo = some p.id ∧ author id = m.authorId := by
    intro id hid
    obtain ⟨m, hm, htype, hreply, rfl⟩ := mem_repliesTo.mp hid
    have hget : s.message? m.id = some m := Table.mem_iff_get?.mp hm
    refine ⟨m, hm, rfl, htype, hreply, ?_⟩
    simp only [author, hget, Option.elim_some]
  apply card_le_card_of_injOn author
  · intro id hid
    obtain ⟨m, hm, rfl, htype, hreply, hauthor⟩ := hrow id hid
    obtain ⟨p', hp'⟩ := hs.parent m hm htype
    have hkey : p'.id = p.id := Option.some.inj (hp'.replyTo.symm.trans hreply)
    have hsame : p' = p := Table.eq_of_key_eq hp'.row hp hkey
    rw [hauthor, ← hsame, hp'.threadId]
    exact mem_threadAgents.mpr hp'.member
  · intro id hid id' hid' heq
    obtain ⟨m, hm, rfl, htype, hreply, hauthor⟩ := hrow id hid
    obtain ⟨m', hm', rfl, htype', hreply', hauthor'⟩ := hrow id' hid'
    apply hs.siblings m hm m' hm' htype htype' (hreply.trans hreply'.symm)
    rw [← hauthor, ← hauthor']
    exact heq

theorem triggers_bounded (hs : Lineage cfg s) (hm : m ∈ s.messages.rows)
    (hhuman : m.authorType = .human) :
    {id | s.Triggers m.id id}.Finite ∧
      {id | s.Triggers m.id id}.ncard ≤
        chainBound cfg.hopBudget (s.threadAgents m.threadId).card := by
  let P : Uuid → Prop := fun id => ∃ p ∈ s.messages.rows, p.id = id ∧ p.threadId = m.threadId
  let level : Uuid → ℕ := fun id => (s.message? id).elim 0 Message.level
  have hlevel : ∀ p ∈ s.messages.rows, level p.id = p.level := by
    intro p hp
    have hget : s.message? p.id = some p := Table.mem_iff_get?.mp hp
    simp only [level, hget, Option.elim_some]
  have hroot : P m.id := ⟨m, hm, rfl, rfl⟩
  have hchild : ∀ x y, P x → y ∈ s.repliesTo x → P y ∧ level y = level x + 1 := by
    rintro _ y ⟨p, hp, rfl, hthread⟩ hy
    obtain ⟨c, hc, htype, hreply, rfl⟩ := mem_repliesTo.mp hy
    obtain ⟨p', hp'⟩ := hs.parent c hc htype
    have hkey : p'.id = p.id := Option.some.inj (hp'.replyTo.symm.trans hreply)
    obtain rfl : p' = p := Table.eq_of_key_eq hp'.row hp hkey
    refine ⟨⟨c, hc, rfl, hp'.threadId.symm.trans hthread⟩, ?_⟩
    rw [hlevel c hc, hlevel p' hp]
    exact level_reply hp' htype
  have hdepth : ∀ x, P x → level x ≤ cfg.hopBudget + 1 := by
    rintro _ ⟨p, hp, rfl, _⟩
    rw [hlevel p hp]
    exact level_le hs hp
  have hwidth : ∀ x, P x → (s.repliesTo x).card ≤ (s.threadAgents m.threadId).card := by
    rintro _ ⟨p, hp, rfl, hthread⟩
    rw [← hthread]
    exact card_repliesTo_le hs hp
  have hzero : level m.id = 0 := by
    rw [hlevel m hm, Message.level, hhuman]
  have hsub : {id | s.Triggers m.id id} ⊆
      ↑(descendants s.repliesTo m.id (cfg.hopBudget + 1)) := by
    intro id hid
    exact mem_descendants_of_level hroot hzero hchild hdepth hid
  constructor
  · exact (finite_toSet _).subset hsub
  · calc {id | s.Triggers m.id id}.ncard
        ≤ (↑(descendants s.repliesTo m.id (cfg.hopBudget + 1)) : Set Uuid).ncard :=
          Set.ncard_le_ncard hsub (finite_toSet _)
      _ = (descendants s.repliesTo m.id (cfg.hopBudget + 1)).card := Set.ncard_coe_finset _
      _ ≤ chainBound cfg.hopBudget (s.threadAgents m.threadId).card :=
          card_descendants_le hroot (fun x y hx hy => (hchild x y hx hy).1) hwidth _

end Bound

section Runs

variable {cfg : Config} {S : State}

theorem lineage_of_reachable (hS : (server cfg).Reachable S) : Lineage cfg S.store := by
  obtain ⟨modes, _, hdutiful⟩ := (keeps_duties cfg).reachable hS
  exact hdutiful.lineage

/-- A triggered message is one hop after its trigger and within the budget, a message of
a chain that has no trigger is at hop zero, and the agent messages triggered by one
message of a user are finitely many, with a bound in the budget and the agents. -/
theorem chains_bounded (hS : (server cfg).Reachable S) :
    (∀ m ∈ S.store.messages.rows, m.authorType = .agent → ∀ id, m.triggeredBy = some id →
      ∃ p, S.store.message? id = some p ∧ p.threadId = m.threadId ∧
        ∃ hop, p.chainHop = some hop ∧ m.chainHop = some (hop + 1) ∧
          ∃ max, cfg.maxChainHops = some max ∧ ((hop + 1 : ℕ) : ℤ) ≤ max) ∧
    (∀ m ∈ S.store.messages.rows, m.authorType = .agent → m.triggeredBy = none →
      m.chainHop.getD 0 = 0) ∧
    ∀ m ∈ S.store.messages.rows, m.authorType = .human →
      {id | S.store.Triggers m.id id}.Finite ∧
        {id | S.store.Triggers m.id id}.ncard ≤
          chainBound cfg.hopBudget (S.store.threadAgents m.threadId).card := by
  have hs := lineage_of_reachable hS
  refine ⟨?_, ?_, ?_⟩
  · intro m hm htype id htrigger
    obtain ⟨p, hp⟩ := hs.parent m hm htype
    obtain ⟨_, hnone, _⟩ | ⟨_, hsome, hop, hhop, hnext, hmax⟩ := hp.hop
    · cases hnone.symm.trans htrigger
    · obtain rfl : p.id = id := Option.some.inj (hsome.symm.trans htrigger)
      refine ⟨p, Table.mem_iff_get?.mp hp.row, hp.threadId, hop, hhop, hnext, ?_⟩
      simpa [Option.any_eq_true] using hmax
  · intro m hm htype hnone
    obtain ⟨p, hp⟩ := hs.parent m hm htype
    obtain ⟨_, _, hzero⟩ | ⟨_, hsome, _⟩ := hp.hop
    · exact hzero
    · cases hnone.symm.trans hsome
  · intro m hm hhuman
    exact triggers_bounded hs hm hhuman

/-- `ann` asks `bob`: his second message is at hop one of the chain hers is the root of. -/
theorem chains_bounded_sample :
    ∃ moves : List ChatMove, (Sample.after moves).store.Triggers 11 15 ∧
      {id | (Sample.after moves).store.Triggers 11 id}.ncard ≤ chainBound 5 2 := by
  let moves := Sample.serve 0 (Sample.openThread [1, 2]) 8 ++
    Sample.serve 1 (Sample.callback 13 "complete" "done") 6 ++
    Sample.serve 2 (Sample.callback 12 "complete" "ask @bob") 21
  have hS : (server Sample.config).Reachable (Sample.after moves) :=
    Sample.reachable (by decide +kernel)
  let m : Message :=
    { id := 11, seq := 1, threadId := 10, authorId := 3, authorType := .human, role := .user
      content := "hi", status := .complete, createdAt := 0, updatedAt := 0 }
  have hm : m ∈ (Sample.after moves).store.messages.rows := by decide +kernel
  have hagents : ((Sample.after moves).store.threadAgents 10).card = 2 := by decide +kernel
  have hann : 12 ∈ (Sample.after moves).store.repliesTo 11 := by decide +kernel
  have hbob : 15 ∈ (Sample.after moves).store.repliesTo 12 := by decide +kernel
  have hbound := ((chains_bounded hS).2.2 m hm rfl).2
  rw [hagents] at hbound
  exact ⟨moves, .tail (.single hann) hbob, hbound⟩

end Runs

end Hill90.Chat
