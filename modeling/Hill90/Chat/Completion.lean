import Hill90.Chat.Chain
import Hill90.Chat.Membership

/-! # The end of a batch is marked once

The callback that ends the last open message of a batch of a group thread counts its
siblings and marks itself.  Closed by anything else, a batch is never marked; closed by two
callbacks at a time, it may be marked twice.  If exactly one callback has its check still
before it when a batch ends, and that check does not fail, one message of the batch gets
the mark.
-/

namespace Hill90.Chat

open Program Service

def Store.batch (s : Store) (replyTo : Uuid) : Set Uuid :=
  {id | ∃ m ∈ s.siblings replyTo, m.id = id}

structure Store.BatchEnded (s : Store) (replyTo : Uuid) : Prop where
  nonempty : s.siblings replyTo ≠ []
  terminal : ∀ m ∈ s.siblings replyTo, m.status.isTerminal = true
  group : ∀ m ∈ s.siblings replyTo, ∃ t, s.thread? m.threadId = some t ∧ t.type = .group

def Store.marked (s : Store) (replyTo : Uuid) : Set Uuid :=
  {id | ∃ m ∈ s.siblings replyTo, m.batchComplete = some true ∧ m.id = id}

def Statement.Finishes (id : Uuid) : Statement → Prop
  | finishMessage id' _ => id' = id
  | _ => False

/-- The request can still mark the message without closing it first. -/
def Marks (id : Uuid) (p : Handler Response) : Prop :=
  p.Reaches credible (Statement.Finishes id) (· = .setBatchComplete id)

/-- The requests that have closed a message of the batch and are still to check the batch. -/
def checkers (S : State) (replyTo : Uuid) : Set ℕ :=
  {i | ∃ q p, S.requests i = some (q, p) ∧ ∃ id ∈ S.store.batch replyTo, Marks id p}

def Closes (S : State) (a : ChatMove) : Prop :=
  ∃ i c q id b k r, a = .resume i c ∧ S.requests i = some (q, .await (.finishMessage id b) k r)

def Ends (S : State) (a : ChatMove) (replyTo : Uuid) : Prop :=
  ∃ st c rows s', S.taking a = some (st, c) ∧ st.run S.store c = .ok (rows, s') ∧
    ¬S.store.BatchEnded replyTo ∧ s'.BatchEnded replyTo

/-- A batch ends with exactly one check before it, the check of an ended batch does not
fail, and no message is added to a batch that is marked or about to be. -/
structure EndsOnce (S : State) (a : ChatMove) : Prop where
  ends : ∀ replyTo, Ends S a replyTo →
    (Closes S a ∧ checkers S replyTo = ∅) ∨ (¬Closes S a ∧ ∃ i, checkers S replyTo = {i})
  checked : ∀ i e replyTo, (a = .reject i e ∨ ∃ c, a = .lose i c e) → i ∈ checkers S replyTo →
    S.store.BatchEnded replyTo → ∀ q st k r, S.requests i = some (q, .await st k r) →
      (∃ id ∈ S.store.batch replyTo, Marks id (r e)) ∨
        ((∃ c, a = .lose i c e) ∧ ∃ id, st = .setBatchComplete id)
  closed : ∀ p c, S.taking a = some (.createPlaceholder p, c) →
    S.store.marked p.replyTo = ∅ ∧ ∀ id ∈ S.store.batch p.replyTo, ∀ j q k r,
      S.requests j ≠ some (q, .await (.setBatchComplete id) k r)

inductive Mark where
  | idle
  | due (id : Uuid)
  | grouped (id replyTo : Uuid)
  | decided (id replyTo : Uuid)

def Mark.subject : Mark → Option Uuid
  | idle => none
  | due id | grouped id _ | decided id _ => some id

def Statement.precedes (id : Uuid) : Statement → Prop
  | titleThread id' | selectJournal id' | selectBatch id' => id' = id
  | appendJournal .. => True
  | _ => False

def marks : Discipline Statement Statement.Rows Failure Mark where
  may
    | .idle, st => st.batching = false
    | .due id, st => st.precedes id
    | .grouped _ replyTo, st => st = .countSiblings replyTo
    | .decided id _, st => st = .setBatchComplete id
  returns := credible
  returned
    | .idle, .finishMessage id _, (rows : ℕ) => if rows = 0 then .idle else .due id
    | .due id, .selectBatch _, (row : Option (Option Uuid × ThreadType)) =>
      match row with
      | some (some replyTo, .group) => .grouped id replyTo
      | _ => .idle
    | .grouped id replyTo, .countSiblings _, (count : ℕ × ℕ) =>
      if 0 < count.1 && count.2 = count.1 then .decided id replyTo else .idle
    | .decided .., _, _ => .idle
    | m, _, _ => m
  rejected
    | .due _, .titleThread _, _ => .idle
    | .due _, .selectBatch _, _ => .idle
    | .grouped .., _, _ => .idle
    | .decided .., _, _ => .idle
    | m, _, _ => m

section Meets

variable {cfg : Config} {α : Type} {m : Mark} {id : Uuid} {p : Handler Response}

def Statement.markless : Statement → Bool
  | finishMessage .. => false
  | s => !s.batching

abbrev Markless (st : Statement) : Prop := st.markless = true

theorem Markless.of_passive {st : Statement} (h : Passive st) : Markless st := by
  cases st <;> first | rfl | cases h

theorem Markless.of_routine {st : Statement} (h : Routine st) : Markless st :=
  .of_passive (.of_routine h)

theorem Markless.of_sending {st : Statement} (h : Sending st) : Markless st := by
  cases st <;> first | rfl | cases h

theorem Markless.of_orchestrating {st : Statement} (h : Orchestrating id st) : Markless st := by
  obtain h | rfl := h
  · cases st <;> first | rfl | cases h
  · rfl

theorem meets_markless {p : Handler α} (h : Only Markless p) :
    p.Meets marks (fun _ m => m = .idle) (fun _ m => m = .idle) .idle := by
  refine h.meets (fun st hst => ?_) (fun _ => rfl) fun _ => rfl
  cases st <;> first | exact ⟨rfl, fun _ => rfl, fun _ => rfl⟩ | cases hst

theorem marks_journal (cfg : Config) (id : Uuid) (b : CallbackBody) :
    (journal cfg id b).Meets marks (fun _ m => m = .due id) (fun _ m => m = .idle) (.due id) := by
  refine meets_ite (fun _ => ?_) fun _ => rfl
  refine (meets_tryCatch _ _).mpr ?_
  refine meets_ask rfl (fun (row : Option JournalRow) _ => ?_) fun _ => rfl
  cases row with
  | none => rfl
  | some row => exact (meets_tryCatch _ _).mpr ⟨trivial, fun _ _ => rfl, fun _ => rfl⟩

theorem marks_completeBatch (id : Uuid) :
    (completeBatch id).Meets marks (fun _ m => m = .idle) (fun _ m => m = .idle) (.due id) := by
  refine (meets_tryCatch _ _).mpr ?_
  refine meets_ask rfl (fun (row : Option (Option Uuid × ThreadType)) _ => ?_) fun _ => rfl
  match row with
  | some (some replyTo, .group) =>
    refine meets_ask rfl (fun (count : ℕ × ℕ) _ => ?_) fun _ => rfl
    obtain ⟨total, terminal⟩ := count
    change Meets marks (if (0 < total && terminal = total) = true
        then (query (.setBatchComplete id) : Handler Unit) else pure ()) _ _
      (if (0 < total && terminal = total) = true then Mark.decided id replyTo else .idle)
    by_cases hall : (0 < total && terminal = total) = true
    · rw [if_pos hall, if_pos hall]
      exact ⟨rfl, fun _ _ => rfl, fun _ => rfl⟩
    · rw [if_neg hall, if_neg hall]
      exact rfl
  | none => exact rfl
  | some (none, _) => exact rfl
  | some (some _, .direct) => exact rfl

theorem markless_thinkingCallback (id : Uuid) (b : CallbackBody) :
    Only Markless (thinkingCallback id b) := by
  refine only_bind (only_query rfl) fun rowCount => only_ite (fun _ => ?_) fun _ => ?_
  · exact (only_notUpdated id).mono fun _ => .of_routine
  · exact only_bind (only_query rfl) fun _ => only_pure _

theorem marks_finalCallback (cfg : Config) (id : Uuid) (b : CallbackBody) :
    (finalCallback cfg id b).Meets marks (fun _ m => m = .idle) (fun _ m => m = .idle) .idle := by
  refine meets_ask rfl (fun (rowCount : ℕ) _ => ?_) fun _ => rfl
  refine meets_ite (fun hzero => ?_) fun hzero => ?_
  · have hidle : marks.returned .idle (.finishMessage id b) rowCount = .idle := if_pos hzero
    rw [hidle]
    exact meets_markless ((only_notUpdated id).mono fun _ => .of_routine)
  · have hdue : marks.returned .idle (.finishMessage id b) rowCount = .due id := if_neg hzero
    rw [hdue]
    refine meets_ask rfl (fun _ _ => ?_) fun _ => rfl
    refine meets_then _ (marks_journal cfg id b) ?_
    rintro _ m rfl
    refine meets_then _ (marks_completeBatch id) ?_
    rintro _ m rfl
    refine meets_then _ (meets_markless ((only_tagElevated id).mono fun _ => .of_routine)) ?_
    rintro _ m rfl
    have horchestrate := (only_orchestrate cfg id b).mono fun _ => Markless.of_orchestrating
    refine meets_then _ (meets_markless horchestrate) ?_
    rintro _ m rfl
    exact rfl

theorem meets_marks (cfg : Config) (q : Request) :
    (q.handler cfg).Meets marks (fun _ m => m = .idle) (fun _ m => m = .idle) .idle := by
  by_cases hpassive : q.isPassive = true
  · exact meets_markless ((only_passive cfg hpassive).mono fun _ => .of_passive)
  · cases q with
    | createThread req => exact meets_markless ((only_createThread cfg req).mono fun _ => .of_sending)
    | sendMessage req => exact meets_markless ((only_sendMessage cfg req).mono fun _ h =>
        .of_sending (.of_posting h))
    | callback req =>
      simp only [Request.handler, chatCallbackHandler]
      split
      · exact rfl
      · refine meets_ite (fun _ => rfl) fun _ => ?_
        split
        · exact rfl
        · rename_i id _
          refine meets_ite (fun _ => rfl) fun _ => meets_ite (fun _ => ?_) fun _ => ?_
          · exact meets_markless (markless_thinkingCallback id req.body)
          · exact marks_finalCallback cfg id req.body
    | _ => exact absurd rfl hpassive

/-- A request can still mark the message its mode is about, and no other. -/
theorem marks_iff (h : p.Meets marks (fun _ m => m = .idle) (fun _ m => m = .idle) m) :
    Marks id p ↔ m.subject = some id := by
  constructor
  · intro hmarks
    apply h.of_reaches (P := fun m => m.subject = some id) _ _ _ hmarks
    · rintro m st hmay rfl
      cases m with
      | idle => cases hmay
      | due id' => exact hmay.elim
      | grouped id' replyTo => cases hmay
      | decided id' replyTo =>
        cases hmay
        rfl
    · intro m st rows _ hblock hsubject
      cases m with
      | idle =>
        cases st
        case finishMessage id' b =>
          simp only [marks] at hsubject
          split at hsubject
          · cases hsubject
          · exact absurd (Option.some.inj hsubject) hblock
        all_goals cases hsubject
      | due id' =>
        cases st
        case selectBatch =>
          match rows with
          | some (some _, .group) => exact hsubject
          | none => cases hsubject
          | some (none, _) => cases hsubject
          | some (some _, .direct) => cases hsubject
        all_goals exact hsubject
      | grouped id' replyTo =>
        cases st
        case countSiblings =>
          simp only [marks] at hsubject
          split at hsubject <;> first | exact hsubject | cases hsubject
        all_goals exact hsubject
      | decided id' replyTo => cases hsubject
    · intro m st e _ hsubject
      cases m with
      | idle => cases hsubject
      | due id' => cases st <;> first | exact hsubject | cases hsubject
      | grouped id' replyTo => cases hsubject
      | decided id' replyTo => cases hsubject
  · intro hsubject
    apply h.reaches (P := fun m => m.subject = some id) _ _ _ hsubject
    · rintro a m rfl
      exact fun h => nomatch h
    · rintro e m rfl
      exact fun h => nomatch h
    · intro m st hm hmay
      cases m with
      | idle => cases hm
      | due id' =>
        cases st
        case titleThread => exact .inr ⟨fun hfinishes => hfinishes, (), trivial, hm⟩
        case selectJournal => exact .inr ⟨fun hfinishes => hfinishes, none, trivial, hm⟩
        case appendJournal => exact .inr ⟨fun hfinishes => hfinishes, (), trivial, hm⟩
        case selectBatch => exact .inr ⟨fun hfinishes => hfinishes, some (some 0, .group), trivial, hm⟩
        all_goals cases hmay
      | grouped id' replyTo =>
        cases hmay
        exact .inr ⟨fun hfinishes => hfinishes, (1, 1), trivial, hm⟩
      | decided id' replyTo =>
        cases hmay
        cases hm
        exact .inl rfl

end Meets

section Effects

variable {cfg : Config} {s s' : Store} {c : Choice} {st : Statement} {rows : st.Rows}
  {m m' : Message} {id replyTo : Uuid}

theorem mem_siblings : m ∈ s.siblings replyTo ↔
    m ∈ s.messages.rows ∧ m.replyTo = some replyTo ∧ m.authorType = .agent := by
  simp [Store.siblings]

theorem thread_of_siblings (hs : Lineage cfg s) (hm : m ∈ s.siblings replyTo)
    (hm' : m' ∈ s.siblings replyTo) : m.threadId = m'.threadId := by
  obtain ⟨hrow, hreply, htype⟩ := mem_siblings.mp hm
  obtain ⟨hrow', hreply', htype'⟩ := mem_siblings.mp hm'
  obtain ⟨p, hp⟩ := hs.parent m hrow htype
  obtain ⟨p', hp'⟩ := hs.parent m' hrow' htype'
  have hid : p.id = replyTo := Option.some.inj (hp.replyTo.symm.trans hreply)
  have hid' : p'.id = replyTo := Option.some.inj (hp'.replyTo.symm.trans hreply')
  have hsame : p = p' := Table.eq_of_key_eq hp.row hp'.row (hid.trans hid'.symm)
  rw [← hp.threadId, ← hp'.threadId, hsame]

theorem sibling_before (hrun : st.run s c = .ok (rows, s')) (hm' : m' ∈ s'.siblings replyTo) :
    (∃ m ∈ s.siblings replyTo, m.id = m'.id ∧ (m' = m ∨ Rewritten s.now st m m')) ∨
      ∃ p, st = .createPlaceholder p ∧ p.replyTo = replyTo ∧ m' = s.placeholder p := by
  obtain ⟨hrow, hreply, htype⟩ := mem_siblings.mp hm'
  obtain hold | ⟨m, hm, hrewritten⟩ | ⟨hcreated, _⟩ := (effect_of_run hrun).origin hrow
  · exact .inl ⟨m', mem_siblings.mpr ⟨hold, hreply, htype⟩, rfl, .inl rfl⟩
  · refine .inl ⟨m, mem_siblings.mpr ⟨hm, ?_, ?_⟩, hrewritten.id_eq.symm, .inr hrewritten⟩
    · exact hrewritten.links_eq.1.symm.trans hreply
    · exact hrewritten.author_eq.2.symm.trans htype
  · cases hcreated with
    | opened => cases htype
    | said => cases htype
    | @placed p => exact .inr ⟨p, rfl, Option.some.inj hreply, rfl⟩

/-- As long as its batch is there, and terminal, a message of the batch is. -/
theorem sibling_after (hs : Lineage cfg s) (hrun : st.run s c = .ok (rows, s'))
    (hended : s'.BatchEnded replyTo) (hm : m ∈ s.siblings replyTo) :
    ∃ m' ∈ s'.siblings replyTo, m'.id = m.id ∧ (m' = m ∨ Rewritten s.now st m m') := by
  obtain ⟨m₁, hm₁⟩ := List.exists_mem_of_ne_nil _ hended.nonempty
  obtain ⟨m₀, hm₀, hid, hfrom⟩ | ⟨p, _, _, rfl⟩ := sibling_before hrun hm₁
  · have hthread : m.threadId = m₁.threadId := by
      rw [thread_of_siblings hs hm hm₀]
      obtain rfl | hrewritten := hfrom
      · rfl
      · exact hrewritten.threadId_eq.symm
    obtain ⟨hrow, hreply, htype⟩ := mem_siblings.mp hm
    obtain ⟨m', hm', hfrom'⟩ := row_of_run hrun hrow (mem_siblings.mp hm₁).1 hthread
    obtain rfl | hrewritten := hfrom'
    · exact ⟨m', mem_siblings.mpr ⟨hm', hreply, htype⟩, rfl, .inl rfl⟩
    · refine ⟨m', mem_siblings.mpr ⟨hm', ?_, ?_⟩, hrewritten.id_eq, .inr hrewritten⟩
      · exact hrewritten.links_eq.1.trans hreply
      · exact hrewritten.author_eq.2.trans htype
  · exact absurd (hended.terminal _ hm₁) Bool.false_ne_true

theorem batch_of_run (hs : Lineage cfg s) (hrun : st.run s c = .ok (rows, s'))
    (hended : s'.BatchEnded replyTo) : s'.batch replyTo = s.batch replyTo := by
  ext id
  constructor
  · rintro ⟨m', hm', rfl⟩
    obtain ⟨m, hm, hid, _⟩ | ⟨p, _, _, rfl⟩ := sibling_before hrun hm'
    · exact ⟨m, hm, hid⟩
    · exact absurd (hended.terminal _ hm') Bool.false_ne_true
  · rintro ⟨m, hm, rfl⟩
    obtain ⟨m', hm', hid, _⟩ := sibling_after hs hrun hended hm
    exact ⟨m', hm', hid⟩

theorem Rewritten.mark {now : ℕ} (h : Rewritten now st m m') :
    m'.batchComplete = m.batchComplete ∨ st = .setBatchComplete m.id := by
  cases h with
  | batched seq hid => exact .inr (hid ▸ rfl)
  | _ => exact .inl rfl

theorem marked_of_run (hs : Lineage cfg s) (hrun : st.run s c = .ok (rows, s'))
    (hended : s'.BatchEnded replyTo) : id ∈ s'.marked replyTo ↔
      id ∈ s.marked replyTo ∨ (st = .setBatchComplete id ∧ id ∈ s.batch replyTo) := by
  constructor
  · rintro ⟨m', hm', hmark, rfl⟩
    obtain ⟨m, hm, hid, rfl | hrewritten⟩ | ⟨p, _, _, rfl⟩ := sibling_before hrun hm'
    · exact .inl ⟨m', hm, hmark, rfl⟩
    · obtain hsame | rfl := hrewritten.mark
      · exact .inl ⟨m, hm, hsame.symm.trans hmark, hid⟩
      · exact .inr ⟨by rw [hid], m, hm, hid⟩
    · exact absurd (hended.terminal _ hm') Bool.false_ne_true
  · rintro (⟨m, hm, hmark, rfl⟩ | ⟨rfl, m, hm, rfl⟩)
    · obtain ⟨m', hm', hid, rfl | hrewritten⟩ := sibling_after hs hrun hended hm
      · exact ⟨m', hm', hmark, hid⟩
      · refine ⟨m', hm', ?_, hid⟩
        cases hrewritten with
        | batched => rfl
        | _ => exact hmark
    · obtain ⟨m', hm', hid, hfrom⟩ := sibling_after hs hrun hended hm
      refine ⟨m', hm', ?_, hid⟩
      cases hrun
      obtain ⟨m₀, hm₀, ⟨hnot, rfl⟩ | ⟨_, _, _, _, rfl⟩⟩ :=
        Table.mem_patchRows (mem_siblings.mp hm').1
      · simp [hid] at hnot
      · rfl

theorem Store.BatchEnded.run (h : s.BatchEnded replyTo) (hs : s.Issued) (hhosted : s.Hosted)
    (hrun : st.run s c = .ok (rows, s')) (hplace : ∀ p, st = .createPlaceholder p →
      p.replyTo ≠ replyTo) (hne : s'.siblings replyTo ≠ []) : s'.BatchEnded replyTo := by
  refine ⟨hne, fun m' hm' => ?_, fun m' hm' => ?_⟩
  · obtain ⟨m, hm, _, rfl | hrewritten⟩ | ⟨p, hst, hreply, _⟩ := sibling_before hrun hm'
    · exact h.terminal m' hm
    · have hterminal := h.terminal m hm
      have hclosed : m.status.isOpen = false := by
        cases hstatus : m.status <;> simp_all [Status.isTerminal, Status.isOpen]
      rw [(hrewritten.of_closed hclosed).1]
      exact hterminal
    · exact absurd hreply (hplace p hst)
  · obtain ⟨m, hm, _, hfrom⟩ | ⟨p, hst, hreply, _⟩ := sibling_before hrun hm'
    · have hthread : m'.threadId = m.threadId := by
        obtain rfl | hrewritten := hfrom
        · rfl
        · exact hrewritten.threadId_eq
      obtain ⟨t, ht, hgroup⟩ := h.group m hm
      obtain ⟨t', ht', hid⟩ := hhosted.run hrun m' (mem_siblings.mp hm').1
      have hget : s'.thread? m.threadId = some t' := by
        rw [← hthread, ← hid]
        exact Table.mem_iff_get?.mp ht'
      refine ⟨t', hthread ▸ hget, ?_⟩
      obtain htype | ⟨_, htype⟩ := type_of_run hs hrun ht hget
      · exact htype.trans hgroup
      · exact htype
    · exact absurd hreply (hplace p hst)

/-- A statement that neither changes the status of a message of the batch nor promotes
a thread does not end the batch. -/
theorem Store.BatchEnded.before (h : s'.BatchEnded replyTo) (hs : Lineage cfg s)
    (hhosted : s.Hosted) (hrun : st.run s c = .ok (rows, s'))
    (hpromote : ∀ threadId, st ≠ .promoteThread threadId)
    (hstatus : ∀ m ∈ s.siblings replyTo, ∀ m', Rewritten s.now st m m' → m'.status = m.status) :
    s.BatchEnded replyTo := by
  have hafter := fun {m : Message} (hm : m ∈ s.siblings replyTo) => sibling_after hs hrun h hm
  refine ⟨fun hnil => ?_, fun m hm => ?_, fun m hm => ?_⟩
  · obtain ⟨m', hm'⟩ := List.exists_mem_of_ne_nil _ h.nonempty
    have hbatch : m'.id ∈ s.batch replyTo := batch_of_run hs hrun h ▸ ⟨m', hm', rfl⟩
    obtain ⟨m, hm, _⟩ := hbatch
    rw [hnil] at hm
    cases hm
  · obtain ⟨m', hm', _, rfl | hrewritten⟩ := hafter hm
    · exact h.terminal m' hm'
    · rw [← hstatus m hm m' hrewritten]
      exact h.terminal m' hm'
  · obtain ⟨m', hm', _, hfrom⟩ := hafter hm
    have hthread : m'.threadId = m.threadId := by
      obtain rfl | hrewritten := hfrom
      · rfl
      · exact hrewritten.threadId_eq
    obtain ⟨t, ht, hid⟩ := hhosted m (mem_siblings.mp hm).1
    have hget : s.thread? m.threadId = some t := hid ▸ Table.mem_iff_get?.mp ht
    obtain ⟨t', ht', hgroup⟩ := h.group m' hm'
    refine ⟨t, hget, ?_⟩
    obtain htype | ⟨hst, _⟩ := type_of_run hs.issued hrun hget (hthread ▸ ht')
    · exact htype.symm.trans hgroup
    · exact absurd hst (hpromote _)

end Effects

section Facts

variable {cfg : Config} {S T : State} {s s' : Store} {c : Choice} {st : Statement} {rows : st.Rows}
  {m : Mark} {id replyTo : Uuid}

/-- What a callback knows of its message, if the message is still there. -/
def Mark.Fits (s : Store) : Mark → Prop
  | idle | due _ => True
  | grouped id replyTo => id < s.nextId ∧ ∀ m, s.message? id = some m →
      m.replyTo = some replyTo ∧ ∃ t, s.thread? m.threadId = some t ∧ t.type = .group
  | decided id replyTo => id < s.nextId ∧ ∀ m, s.message? id = some m → m.authorType = .agent →
      m.replyTo = some replyTo ∧ s.BatchEnded replyTo

/-- Only a batch that has ended is marked. -/
structure Store.MarkedEnded (s : Store) : Prop where
  hosted : s.Hosted
  ended : ∀ id replyTo, id ∈ s.marked replyTo → s.BatchEnded replyTo

theorem message_before (hrun : st.run s c = .ok (rows, s')) (hid : id < s.nextId)
    {m' : Message} (hm' : s'.message? id = some m') :
    ∃ m, s.message? id = some m ∧ (m' = m ∨ Rewritten s.now st m m') := by
  have hkey : m'.id = id := Table.key_of_get? hm'
  obtain hold | ⟨m, hm, hrewritten⟩ | ⟨_, hle, _⟩ :=
    (effect_of_run hrun).origin (Table.mem_of_get? hm')
  · exact ⟨m', hkey ▸ Table.mem_iff_get?.mp hold, .inl rfl⟩
  · refine ⟨m, ?_, .inr hrewritten⟩
    rw [← hkey, hrewritten.id_eq]
    exact Table.mem_iff_get?.mp hm
  · rw [hkey] at hle
    exact absurd hid (Nat.not_lt_of_le hle)

theorem group_of_run (hs : s.Issued) (hhosted : s.Hosted) (hrun : st.run s c = .ok (rows, s'))
    {m' : Message} (hm' : m' ∈ s'.messages.rows) {t : Thread}
    (ht : s.thread? m'.threadId = some t) (hgroup : t.type = .group) :
    ∃ t', s'.thread? m'.threadId = some t' ∧ t'.type = .group := by
  obtain ⟨t', ht', hid⟩ := hhosted.run hrun m' hm'
  have hget : s'.thread? m'.threadId = some t' := hid ▸ Table.mem_iff_get?.mp ht'
  refine ⟨t', hget, ?_⟩
  obtain htype | ⟨_, htype⟩ := type_of_run hs hrun ht hget
  · exact htype.trans hgroup
  · exact htype

/-- Only the request that has decided marks a message. -/
theorem decided_of_may (hmay : marks.may m (.setBatchComplete id)) : ∃ replyTo, m = .decided id replyTo := by
  cases m with
  | idle => cases hmay
  | due => exact hmay.elim
  | grouped => cases hmay
  | decided id' replyTo =>
    cases hmay
    exact ⟨replyTo, rfl⟩

theorem Mark.Fits.run (h : m.Fits s) (hs : s.Issued) (hhosted : s.Hosted)
    (hrun : st.run s c = .ok (rows, s'))
    (hplace : ∀ id replyTo p, m = .decided id replyTo → id ∈ s.batch replyTo →
      st = .createPlaceholder p → p.replyTo ≠ replyTo) : m.Fits s' := by
  have hle := (frame_of_run hrun).nextId
  cases m with
  | idle => trivial
  | due => trivial
  | grouped id replyTo =>
    refine ⟨Nat.lt_of_lt_of_le h.1 hle, fun m' hm' => ?_⟩
    obtain ⟨m, hm, hfrom⟩ := message_before hrun h.1 hm'
    have hsame : m'.replyTo = m.replyTo ∧ m'.threadId = m.threadId := by
      obtain rfl | hrewritten := hfrom
      · exact ⟨rfl, rfl⟩
      · exact ⟨hrewritten.links_eq.1, hrewritten.threadId_eq⟩
    obtain ⟨hreply, t, ht, hgroup⟩ := h.2 m hm
    rw [← hsame.2] at ht
    exact ⟨hsame.1.trans hreply, group_of_run hs hhosted hrun (Table.mem_of_get? hm') ht hgroup⟩
  | decided id replyTo =>
    refine ⟨Nat.lt_of_lt_of_le h.1 hle, fun m' hm' htype' => ?_⟩
    obtain ⟨m, hm, hfrom⟩ := message_before hrun h.1 hm'
    have hsame : m'.replyTo = m.replyTo ∧ m'.authorType = m.authorType := by
      obtain rfl | hrewritten := hfrom
      · exact ⟨rfl, rfl⟩
      · exact ⟨hrewritten.links_eq.1, hrewritten.author_eq.2⟩
    have htype : m.authorType = .agent := hsame.2.symm.trans htype'
    obtain ⟨hreply, hended⟩ := h.2 m hm htype
    have hmem : m ∈ s.siblings replyTo := mem_siblings.mpr ⟨Table.mem_of_get? hm, hreply, htype⟩
    have hmem' : m' ∈ s'.siblings replyTo :=
      mem_siblings.mpr ⟨Table.mem_of_get? hm', hsame.1.trans hreply, htype'⟩
    refine ⟨hsame.1.trans hreply, hended.run hs hhosted hrun (fun p hst => ?_) ?_⟩
    · exact hplace id replyTo p rfl ⟨m, hmem, Table.key_of_get? hm⟩ hst
    · exact List.ne_nil_of_mem hmem'

theorem fits_returned (hs : Lineage cfg s) (h : m.Fits s) (hmay : marks.may m st)
    (hrun : st.run s c = .ok (rows, s')) : (marks.returned m st rows).Fits s' := by
  cases m with
  | idle =>
    cases st
    case finishMessage =>
      simp only [marks]
      split <;> trivial
    all_goals trivial
  | due id =>
    cases st
    case selectBatch id' =>
      obtain rfl : id' = id := hmay
      cases hrun
      cases hget : s.message? id' with
      | none => simp [marks, Mark.Fits]
      | some msg =>
        cases hthread : s.thread? msg.threadId with
        | none => simp [marks, hthread, Mark.Fits]
        | some t =>
          simp only [marks, hthread, Option.bind_some, Option.map_some]
          split
          · rename_i replyTo heq
            have hreply : msg.replyTo = some replyTo := congrArg Prod.fst (Option.some.inj heq)
            have hgroup : t.type = .group := congrArg Prod.snd (Option.some.inj heq)
            have hkey : msg.id = id' := Table.key_of_get? hget
            refine ⟨hkey ▸ (hs.issued.messages msg (Table.mem_of_get? hget)).1, fun msg' hmsg' => ?_⟩
            obtain rfl := Option.some.inj (hget.symm.trans hmsg')
            exact ⟨hreply, t, hthread, hgroup⟩
          · trivial
    all_goals trivial
  | grouped id replyTo =>
    obtain rfl : st = .countSiblings replyTo := hmay
    cases hrun
    simp only [marks]
    split
    · rename_i hall
      simp only [Bool.and_eq_true, decide_eq_true_eq] at hall
      refine ⟨h.1, fun msg hmsg htype => ?_⟩
      obtain ⟨hreply, t, ht, hgroup⟩ := h.2 msg hmsg
      have hmem := mem_siblings.mpr ⟨Table.mem_of_get? hmsg, hreply, htype⟩
      refine ⟨hreply, List.ne_nil_of_mem hmem, List.countP_eq_length.mp hall.2, fun msg' hmsg' => ?_⟩
      rw [thread_of_siblings hs hmsg' hmem]
      exact ⟨t, ht, hgroup⟩
    · trivial
  | decided id replyTo => trivial

theorem guards_marks (cfg : Config) :
    (service cfg).Guards marks EndsOnce (fun _ => .idle) (fun _ _ m => m = .idle)
      (fun _ m => m = .idle) Store.MarkedEnded fun s m => m.Fits s where
  handler q := meets_marks cfg q
  fresh s hs := by
    refine ⟨fun m hm => ?_, ?_⟩
    · rw [hs.1] at hm
      cases hm
    · rintro id replyTo ⟨m, hm, _⟩
      have hrow := (mem_siblings.mp hm).1
      rw [hs.1] at hrow
      cases hrow
  arrive _ _ _ := trivial
  fail s m st e hmay h := by
    cases m with
    | idle => exact trivial
    | due id => cases st <;> exact trivial
    | grouped => exact trivial
    | decided => exact trivial
  effect S a st c rows s' m hreach hok htaking hmay hmarked hm hrun := by
    change st.run S.store c = .ok (rows, s') at hrun
    have hs : Lineage cfg S.store := lineage_of_reachable hreach.reachable
    refine ⟨⟨hmarked.hosted.run hrun, ?_⟩, ?_, credible_of_run hrun, fits_returned hs hm hmay hrun⟩
    · rintro id replyTo ⟨msg', hmsg', hmark, rfl⟩
      have hne := List.ne_nil_of_mem hmsg'
      have hkeep : ∀ msg ∈ S.store.siblings replyTo, msg.batchComplete = some true →
          s'.BatchEnded replyTo := by
        intro msg hmsg hflag
        have hin : msg.id ∈ S.store.marked replyTo := ⟨msg, hmsg, hflag, rfl⟩
        apply (hmarked.ended _ _ hin).run hs.issued hmarked.hosted hrun _ hne
        rintro p rfl rfl
        rw [(hok.closed p c htaking).1] at hin
        exact hin
      obtain ⟨msg, hmsg, hid, rfl | hrewritten⟩ | ⟨p, _, _, rfl⟩ := sibling_before hrun hmsg'
      · exact hkeep _ hmsg hmark
      · obtain hsame | rfl := hrewritten.mark
        · exact hkeep msg hmsg (hsame.symm.trans hmark)
        · obtain ⟨replyTo', rfl⟩ := decided_of_may hmay
          obtain ⟨hrow, hreply, htype⟩ := mem_siblings.mp hmsg
          obtain ⟨hreply', hended⟩ := hm.2 msg (Table.mem_iff_get?.mp hrow) htype
          obtain rfl : replyTo = replyTo' := Option.some.inj (hreply.symm.trans hreply')
          exact hended.run hs.issued hmarked.hosted hrun (fun p hst => nomatch hst) hne
      · cases hmark
    · intro j q p n hj hmeets hn
      apply hn.run hs.issued hmarked.hosted hrun
      rintro id replyTo row rfl hbatch rfl rfl
      -- a request that has decided waits at its mark
      cases p with
      | reply r => cases hmeets
      | raise e => cases hmeets
      | await st' k r =>
        obtain rfl : st' = .setBatchComplete id := hmeets.1
        exact (hok.closed row c htaking).2 id hbatch j q k r hj
  around s x s' hs hx := by
    cases hx
    have hsame : ∀ replyTo, (x.change s).BatchEnded replyTo ↔ s.BatchEnded replyTo := by
      intro replyTo
      cases x <;> exact ⟨fun h => ⟨h.nonempty, h.terminal, h.group⟩,
        fun h => ⟨h.nonempty, h.terminal, h.group⟩⟩
    refine ⟨⟨?_, fun id replyTo hid => ?_⟩, fun n hn => ?_⟩
    · cases x <;> exact hs.hosted
    · rw [hsame]
      apply hs.ended id
      cases x <;> exact hid
    · cases n with
      | idle => trivial
      | due => trivial
      | grouped => cases x <;> exact hn
      | decided id replyTo =>
        refine ⟨by cases x <;> exact hn.1, fun m hm htype => ?_⟩
        rw [hsame]
        apply hn.2 m _ htype
        cases x <;> exact hm

end Facts

section Settled

variable {cfg : Config} {S T : State} {s' : Store} {c : Choice} {i : ℕ} {q : Request}
  {st : Statement} {k : st.Rows → Handler Response} {r : Failure → Handler Response}
  {rows : st.Rows} {e : Failure} {p' : Handler Response} {m m' : Mark} {id replyTo : Uuid}

/-- A batch has one checker or one mark, and not both. -/
def Accounted (S : State) (replyTo : Uuid) : Prop :=
  (∃ i, checkers S replyTo = {i} ∧ S.store.marked replyTo = ∅) ∨
    (checkers S replyTo = ∅ ∧ ∃ id, S.store.marked replyTo = {id})

def Settled (S : State) : Prop := ∀ replyTo, S.store.BatchEnded replyTo → Accounted S replyTo

abbrev Goes (p : Handler Response) (m : Mark) : Prop :=
  p.Meets marks (fun _ m => m = .idle) (fun _ m => m = .idle) m

abbrev GuardedMarks (S : State) : Prop :=
  Guarded marks (fun _ _ m => m = .idle) (fun _ m => m = .idle) Store.MarkedEnded
    (fun s m => m.Fits s) S

theorem mem_checkers (hi : S.requests i = some (q, p')) (hp : Goes p' m) :
    i ∈ checkers S replyTo ↔ ∃ id ∈ S.store.batch replyTo, m.subject = some id := by
  constructor
  · rintro ⟨q₀, p₀, hi₀, id, hid, hmarks⟩
    cases hi.symm.trans hi₀
    exact ⟨id, hid, (marks_iff hp).mp hmarks⟩
  · rintro ⟨id, hid, hsubject⟩
    exact ⟨q, p', hi, id, hid, (marks_iff hp).mpr hsubject⟩

theorem mem_checkers_proceed (hp : Goes p' m') (hbatch : s'.batch replyTo = S.store.batch replyTo)
    {j : ℕ} : j ∈ checkers (S.proceed i s' q p') replyTo ↔
      if j = i then ∃ id ∈ S.store.batch replyTo, m'.subject = some id
      else j ∈ checkers S replyTo := by
  by_cases hji : j = i
  · subst hji
    rw [if_pos rfl, ← hbatch]
    refine mem_checkers (q := q) ?_ hp
    rw [System.proceed_requests, if_pos rfl]
  · simp only [checkers, Set.mem_ofPred_eq, System.proceed_requests, if_neg hji,
      System.proceed_store, hbatch]

theorem checkers_proceed (hp : Goes p' m') (hbatch : s'.batch replyTo = S.store.batch replyTo)
    (hi : (∃ id ∈ S.store.batch replyTo, m'.subject = some id) ↔ i ∈ checkers S replyTo) :
    checkers (S.proceed i s' q p') replyTo = checkers S replyTo := by
  ext j
  rw [mem_checkers_proceed hp hbatch]
  split
  · rename_i hji
    rw [hi, hji]
  · rfl

theorem subject_rejected (h : (marks.rejected m st e).subject = some id) : m.subject = some id := by
  cases m with
  | idle => cases h
  | due id' => cases st <;> first | exact h | cases h
  | grouped => cases h
  | decided => cases h

/-- A request turns to a message only by closing it. -/
theorem subject_returned (hrun : st.run S.store c = .ok (rows, s'))
    (h : (marks.returned m st rows).subject = some id) :
    m.subject = some id ∨ ((∃ b, st = .finishMessage id b) ∧
      ∃ msg, S.store.message? id = some msg ∧ msg.status.isOpen = true) := by
  cases m with
  | idle =>
    cases st
    case finishMessage id' b =>
      simp only [marks] at h
      split at h
      · cases h
      · rename_i hne
        cases h
        cases hrun
        exact .inr ⟨⟨b, rfl⟩, exists_open_of_finish (b := b) hne⟩
    all_goals cases h
  | due id' =>
    left
    cases st
    case selectBatch =>
      match rows with
      | some (some _, .group) => exact h
      | none => cases h
      | some (none, _) => cases h
      | some (some _, .direct) => cases h
    all_goals exact h
  | grouped id' replyTo =>
    left
    cases st
    case countSiblings =>
      simp only [marks] at h
      split at h <;> first | exact h | cases h
    all_goals exact h
  | decided => cases h

theorem ended_of_subject (hs : Lineage cfg S.store) (hhosted : S.store.Hosted)
    (hmay : marks.may m st) (hsubject : m.subject = some id) (hrun : st.run S.store c = .ok (rows, s'))
    (hended : s'.BatchEnded replyTo) : S.store.BatchEnded replyTo := by
  have hquiet : (∀ threadId, st ≠ .promoteThread threadId) ∧ ∀ msg msg' : Message,
      Rewritten S.store.now st msg msg' → msg'.status = msg.status := by
    cases m with
    | idle => cases hsubject
    | due id' =>
      refine ⟨?_, fun msg msg' hrewritten => ?_⟩
      · rintro threadId rfl
        exact hmay
      · cases hrewritten <;> first | rfl | exact hmay.elim
    | grouped id' replyTo' =>
      obtain rfl : st = .countSiblings replyTo' := hmay
      exact ⟨fun _ h => (nomatch h), fun msg msg' hrewritten => nomatch hrewritten⟩
    | decided id' replyTo' =>
      obtain rfl : st = .setBatchComplete id' := hmay
      refine ⟨fun _ h => (nomatch h), fun msg msg' hrewritten => ?_⟩
      cases hrewritten
      rfl
  exact hended.before hs hhosted hrun hquiet.1 fun msg _ msg' => hquiet.2 msg msg'

theorem not_refused (hmay : marks.may m st) (hsubject : m.subject = some id) :
    st.run S.store c ≠ .error e := by
  intro hrun
  cases m with
  | idle => cases hsubject
  | due id' => cases st <;> first | cases hrun | exact hmay.elim
  | grouped id' replyTo' =>
    obtain rfl : st = .countSiblings replyTo' := hmay
    cases hrun
  | decided id' replyTo' =>
    obtain rfl : st = .setBatchComplete id' := hmay
    cases hrun

theorem marked_same (hs : Lineage cfg S.store) (hmay : marks.may m st)
    (hrun : st.run S.store c = .ok (rows, s')) (hended : s'.BatchEnded replyTo)
    (hnot : ¬∃ id ∈ S.store.batch replyTo, m.subject = some id) :
    s'.marked replyTo = S.store.marked replyTo := by
  ext id
  rw [marked_of_run hs hrun hended]
  constructor
  · rintro (hold | ⟨rfl, hbatch⟩)
    · exact hold
    · obtain ⟨_, rfl⟩ := decided_of_may hmay
      exact absurd ⟨id, hbatch, rfl⟩ hnot
  · exact .inl

theorem marked_new (hs : Lineage cfg S.store) {st : Statement} {rows : st.Rows}
    (hst : st = .setBatchComplete id) (hrun : st.run S.store c = .ok (rows, s'))
    (hended : s'.BatchEnded replyTo) (hbatch : id ∈ S.store.batch replyTo)
    (hnone : S.store.marked replyTo = ∅) : s'.marked replyTo = {id} := by
  ext id'
  rw [marked_of_run hs hrun hended, hnone, hst]
  constructor
  · rintro (hold | ⟨heq, _⟩)
    · exact hold.elim
    · cases heq
      exact rfl
  · rintro rfl
    exact .inr ⟨rfl, hbatch⟩

theorem Accounted.of_eq (h : Accounted S replyTo) (hcheckers : checkers T replyTo = checkers S replyTo)
    (hmarked : T.store.marked replyTo = S.store.marked replyTo) : Accounted T replyTo := by
  unfold Accounted
  rw [hcheckers, hmarked]
  exact h

theorem Settled.failed (h : Settled S) (hwait : S.requests i = some (q, .await st k r))
    (hm : Goes (.await st k r) m) (hkeeps : ∀ replyTo, S.store.BatchEnded replyTo →
      i ∈ checkers S replyTo → ∃ id ∈ S.store.batch replyTo, Marks id (r e)) :
    Settled (S.proceed i S.store q (r e)) := by
  intro replyTo hended
  have he : Goes (r e) (marks.rejected m st e) := hm.2.2 e
  apply (h replyTo hended).of_eq (checkers_proceed he rfl _) rfl
  constructor
  · rintro ⟨id, hid, hsubject⟩
    exact (mem_checkers hwait hm).mpr ⟨id, hid, subject_rejected hsubject⟩
  · intro hi
    obtain ⟨id, hid, hmarks⟩ := hkeeps replyTo hended hi
    exact ⟨id, hid, (marks_iff he).mp hmarks⟩

theorem Accounted.others (h : Accounted S replyTo) (hs : Lineage cfg S.store)
    (hwait : S.requests i = some (q, .await st k r)) (hm : Goes (.await st k r) m)
    (hrun : st.run S.store c = .ok (rows, s')) (hended : s'.BatchEnded replyTo) (hp : Goes p' m')
    (hi : i ∉ checkers S replyTo) (hnext : ∀ id ∈ S.store.batch replyTo, m'.subject ≠ some id) :
    Accounted (S.proceed i s' q p') replyTo := by
  apply h.of_eq
  · apply checkers_proceed hp (batch_of_run hs hrun hended)
    constructor
    · rintro ⟨id, hid, hsubject⟩
      exact absurd hsubject (hnext id hid)
    · intro hin
      exact absurd hin hi
  · apply marked_same hs hm.1 hrun hended
    intro hex
    exact hi ((mem_checkers hwait hm).mpr hex)

/-- A step of the checker, which goes on to check or marks its message. -/
theorem Accounted.own (h : Accounted S replyTo) (hs : Lineage cfg S.store)
    (hrun : st.run S.store c = .ok (rows, s')) (hended : s'.BatchEnded replyTo) (hp : Goes p' m')
    (hi : i ∈ checkers S replyTo)
    (hnext : (∃ id ∈ S.store.batch replyTo, m'.subject = some id ∧
        ∀ id', st ≠ .setBatchComplete id') ∨
      (m'.subject = none ∧ ∃ id ∈ S.store.batch replyTo, st = .setBatchComplete id)) :
    Accounted (S.proceed i s' q p') replyTo := by
  obtain ⟨hone, hnone⟩ : checkers S replyTo = {i} ∧ S.store.marked replyTo = ∅ := by
    obtain ⟨i₀, hone, hnone⟩ | ⟨hnobody, _⟩ := h
    · rw [hone, Set.mem_singleton_iff] at hi
      exact ⟨hi ▸ hone, hnone⟩
    · rw [hnobody] at hi
      exact hi.elim
  have hbatch := batch_of_run hs hrun hended
  obtain ⟨id, hid, hsubject, hst⟩ | ⟨hsubject, id, hid, hst⟩ := hnext
  · apply h.of_eq
    · exact checkers_proceed hp hbatch ⟨fun _ => hi, fun _ => ⟨id, hid, hsubject⟩⟩
    · ext id'
      change id' ∈ s'.marked replyTo ↔ _
      rw [marked_of_run hs hrun hended]
      exact ⟨fun hor => hor.elim (fun h => h) fun hand => absurd hand.1 (hst id'), .inl⟩
  · refine .inr ⟨?_, id, marked_new hs hst hrun hended hid hnone⟩
    ext j
    rw [mem_checkers_proceed hp hbatch, hone]
    simp only [hsubject, Set.mem_singleton_iff, Set.mem_empty_iff_false, iff_false]
    split
    · simp
    · assumption

theorem Accounted.ended (hg : GuardedMarks S) (hs : Lineage cfg S.store) {a : ChatMove}
    (hok : EndsOnce S a) (htaking : S.taking a = some (st, c))
    (hwait : S.requests i = some (q, .await st k r)) (hm : Goes (.await st k r) m)
    (hrun : st.run S.store c = .ok (rows, s')) (hold : ¬S.store.BatchEnded replyTo)
    (hended : s'.BatchEnded replyTo) (hp : Goes p' m')
    (hcloses : Closes S a → ∃ id b, st = .finishMessage id b ∧ (id ∈ S.store.batch replyTo →
      (∃ msg ∈ S.store.siblings replyTo, msg.id = id ∧ msg.status.isOpen = true) →
        m'.subject = some id))
    (hnext : ¬Closes S a → m'.subject = none) : Accounted (S.proceed i s' q p') replyTo := by
  have hbatch := batch_of_run hs hrun hended
  have hidle : m.subject = none := by
    cases hsubject : m.subject with
    | none => rfl
    | some id =>
      exact absurd (ended_of_subject hs hg.1.hosted hm.1 hsubject hrun hended) hold
  have hnot : ¬∃ id ∈ S.store.batch replyTo, m.subject = some id := by
    rintro ⟨id, _, hsubject⟩
    cases hidle.symm.trans hsubject
  have hi : i ∉ checkers S replyTo := fun hin => hnot ((mem_checkers hwait hm).mp hin)
  have hmarked : s'.marked replyTo = ∅ := by
    rw [marked_same hs hm.1 hrun hended hnot]
    apply Set.eq_empty_of_forall_notMem
    intro id hid
    exact hold (hg.1.ended id replyTo hid)
  obtain ⟨hcl, hnone⟩ | ⟨hcl, i₀, hone⟩ := hok.ends replyTo ⟨st, c, rows, s', htaking, hrun, hold, hended⟩
  · obtain ⟨id, b, rfl, hsubject⟩ := hcloses hcl
    -- the batch ends only because the closed message is its own and was open
    obtain ⟨msg, hmsg, hid, hopen⟩ :
        ∃ msg ∈ S.store.siblings replyTo, msg.id = id ∧ msg.status.isOpen = true := by
      by_contra hno
      refine hold (hended.before hs hg.1.hosted hrun (fun _ h => nomatch h) fun msg hmsg msg' hw => ?_)
      cases hw with
      | finished seq hid hopen => exact absurd ⟨msg, hmsg, hid, hopen⟩ hno
    have hin : id ∈ S.store.batch replyTo := ⟨msg, hmsg, hid⟩
    refine .inl ⟨i, ?_, hmarked⟩
    ext j
    rw [mem_checkers_proceed hp hbatch, hnone]
    have hsome := hsubject hin ⟨msg, hmsg, hid, hopen⟩
    simp only [hsome, Option.some.injEq, exists_eq_right', Set.mem_singleton_iff,
      Set.mem_empty_iff_false]
    split
    · simpa [hin]
    · rename_i hji
      exact ⟨False.elim, fun h => absurd h hji⟩
  · refine .inl ⟨i₀, ?_, hmarked⟩
    rw [← hone]
    apply checkers_proceed hp hbatch
    rw [hnext hcl]
    constructor
    · rintro ⟨_, _, hsome⟩
      cases hsome
    · intro hin
      exact absurd hin hi

theorem own_returned (hfits : m.Fits S.store) (hmay : marks.may m st)
    (hrun : st.run S.store c = .ok (rows, s')) (hold : S.store.BatchEnded replyTo)
    (hid : id ∈ S.store.batch replyTo) (hsubject : m.subject = some id) :
    ((marks.returned m st rows).subject = some id ∧ ∀ id', st ≠ .setBatchComplete id') ∨
      ((marks.returned m st rows).subject = none ∧ st = .setBatchComplete id) := by
  obtain ⟨msg, hmsg, hkey⟩ := hid
  have hget : S.store.message? id = some msg := hkey ▸ Table.mem_iff_get?.mp (mem_siblings.mp hmsg).1
  have hreply : msg.replyTo = some replyTo := (mem_siblings.mp hmsg).2.1
  cases m with
  | idle => cases hsubject
  | due id' =>
    cases hsubject
    left
    cases st
    case selectBatch id' =>
      obtain rfl : id' = id := hmay
      cases hrun
      obtain ⟨t, ht, hgroup⟩ := hold.group msg hmsg
      refine ⟨?_, fun _ h => nomatch h⟩
      simp [hget, ht, hgroup, hreply, marks, Mark.subject]
    case titleThread => exact ⟨rfl, fun _ h => nomatch h⟩
    case selectJournal => exact ⟨rfl, fun _ h => nomatch h⟩
    case appendJournal => exact ⟨rfl, fun _ h => nomatch h⟩
    all_goals exact hmay.elim
  | grouped id' replyTo' =>
    cases hsubject
    obtain rfl : replyTo' = replyTo := Option.some.inj ((hfits.2 msg hget).1.symm.trans hreply)
    obtain rfl : st = .countSiblings replyTo' := hmay
    cases hrun
    have hpos : 0 < (S.store.siblings replyTo').length := List.length_pos_iff.mpr hold.nonempty
    have hall : (S.store.siblings replyTo').countP (·.status.isTerminal) =
        (S.store.siblings replyTo').length := List.countP_eq_length.mpr hold.terminal
    refine .inl ⟨?_, fun _ h => nomatch h⟩
    simp [marks, hpos, hall, Mark.subject]
  | decided id' replyTo' =>
    cases hsubject
    obtain rfl : st = .setBatchComplete id := hmay
    exact .inr ⟨rfl, rfl⟩

/-- A step with an effect on the store. -/
theorem Settled.effect (h : Settled S) (hg : GuardedMarks S) (hs : Lineage cfg S.store)
    {a : ChatMove} (hok : EndsOnce S a) (htaking : S.taking a = some (st, c))
    (hwait : S.requests i = some (q, .await st k r)) (hm : Goes (.await st k r) m)
    (hrun : st.run S.store c = .ok (rows, s')) (hp : Goes p' m')
    (hsource : ∀ id, m'.subject = some id → m.subject = some id ∨ (Closes S a ∧
      ∃ msg, S.store.message? id = some msg ∧ msg.status.isOpen = true))
    (hcloses : Closes S a → ∃ id b, st = .finishMessage id b ∧
      ((∃ msg ∈ S.store.messages.rows, msg.id = id ∧ msg.status.isOpen = true) →
        m'.subject = some id))
    (hown : ∀ replyTo id, S.store.BatchEnded replyTo → i ∈ checkers S replyTo →
      id ∈ S.store.batch replyTo → m.subject = some id →
        (m'.subject = some id ∧ ∀ id', st ≠ .setBatchComplete id') ∨
          (m'.subject = none ∧ st = .setBatchComplete id)) :
    Settled (S.proceed i s' q p') := by
  intro replyTo hended
  by_cases hold : S.store.BatchEnded replyTo
  · by_cases hi : i ∈ checkers S replyTo
    · apply (h replyTo hold).own hs hrun hended hp hi
      obtain ⟨id, hid, hsubject⟩ := (mem_checkers hwait hm).mp hi
      obtain ⟨hnext, hst⟩ | ⟨hnext, hst⟩ := hown replyTo id hold hi hid hsubject
      · exact .inl ⟨id, hid, hnext, hst⟩
      · exact .inr ⟨hnext, id, hid, hst⟩
    · apply (h replyTo hold).others hs hwait hm hrun hended hp hi
      intro id hid hsubject
      obtain hsame | ⟨_, msg, hmsg, hopen⟩ := hsource id hsubject
      · exact hi ((mem_checkers hwait hm).mpr ⟨id, hid, hsame⟩)
      · -- an open message is not in a batch that has ended
        obtain ⟨msg', hmsg', rfl⟩ := hid
        cases hmsg.symm.trans (Table.mem_iff_get?.mp (mem_siblings.mp hmsg').1)
        have hterminal := hold.terminal msg hmsg'
        cases hstatus : msg.status <;> simp_all [Status.isTerminal, Status.isOpen]
  · apply Accounted.ended hg hs hok htaking hwait hm hrun hold hended hp
    · intro hcl
      obtain ⟨id, b, hst, hsubject⟩ := hcloses hcl
      refine ⟨id, b, hst, fun _ => ?_⟩
      rintro ⟨msg, hmsg, hid, hopen⟩
      exact hsubject ⟨msg, (mem_siblings.mp hmsg).1, hid, hopen⟩
    · intro hcl
      cases hnext : m'.subject with
      | none => rfl
      | some id =>
        obtain hsame | ⟨hyes, _⟩ := hsource id hnext
        · exact absurd (ended_of_subject hs hg.1.hosted hm.1 hsame hrun hended) hold
        · exact absurd hyes hcl

theorem Settled.step (h : Settled S) (hreach : (server cfg).ReachableIf EndsOnce S)
    (hg : GuardedMarks S) {a : ChatMove} (hok : EndsOnce S a)
    (hstep : (server cfg).step S a = some T) : Settled T := by
  have hs : Lineage cfg S.store := lineage_of_reachable hreach.reachable
  cases moved_of_step hstep with
  | arrived q =>
    intro replyTo hended
    refine (h replyTo hended).of_eq ?_ rfl
    ext j
    simp only [checkers, Set.mem_ofPred_eq, System.enter_requests, System.enter_store]
    split
    · rename_i hj
      constructor
      · rintro ⟨_, p, hp, id, _, hmarks⟩
        cases hp
        cases (marks_iff (meets_marks cfg q)).mp hmarks
      · rintro ⟨_, p, hp, _⟩
        rw [none_of_arrivals_le hreach j (Nat.le_of_eq hj.symm)] at hp
        cases hp
    · rfl
  | @answered i c q st k r rows store hwait heff =>
    change st.run S.store c = .ok (rows, store) at heff
    obtain ⟨m, hm, hfits⟩ := hg.2 i q _ hwait
    have hp : Goes (k rows) (marks.returned m st rows) := hm.2.1 rows (credible_of_run heff)
    have htaking : S.taking (.resume i c : ChatMove) = some (st, c) := by
      simp [System.taking, hwait]
    refine h.effect hg hs hok htaking hwait hm heff hp ?_ ?_ ?_
    · intro id hsubject
      obtain hsame | ⟨⟨b, rfl⟩, hopen⟩ := subject_returned heff hsubject
      · exact .inl hsame
      · exact .inr ⟨⟨i, c, q, id, b, k, r, rfl, hwait⟩, hopen⟩
    · rintro ⟨_, _, q', id, b, k', r', heq, hwait'⟩
      cases heq
      cases hwait.symm.trans hwait'
      refine ⟨id, b, rfl, ?_⟩
      rintro ⟨msg, hmsg, hid, hopen⟩
      obtain rfl : m = .idle := by
        cases m with
        | idle => rfl
        | due => exact hm.1.elim
        | grouped => cases hm.1
        | decided => cases hm.1
      cases heff
      have hne : S.store.messages.rows.countP (fun m => m.id = id && m.status.isOpen) ≠ 0 := by
        apply Nat.ne_of_gt
        exact List.countP_pos_iff.mpr ⟨msg, hmsg, by simp [hid, hopen]⟩
      have hdue : marks.returned .idle (.finishMessage id b) (S.store.finish id b).1 = .due id :=
        if_neg hne
      exact congrArg Mark.subject hdue
    · intro replyTo id hold _ hid hsubject
      exact own_returned hfits hm.1 heff hold hid hsubject
  | refused hwait heff =>
    obtain ⟨m, hm, _⟩ := hg.2 _ _ _ hwait
    apply h.failed hwait hm
    intro replyTo _ hi
    obtain ⟨id, _, hsubject⟩ := (mem_checkers hwait hm).mp hi
    exact absurd heff (not_refused hm.1 hsubject)
  | rejected hwait =>
    obtain ⟨m, hm, _⟩ := hg.2 _ _ _ hwait
    apply h.failed hwait hm
    intro replyTo hended hi
    obtain hkeeps | ⟨⟨c, heq⟩, _⟩ := hok.checked _ _ replyTo (.inl rfl) hi hended _ _ _ _ hwait
    · exact hkeeps
    · cases heq
  | @lost i c q st k r rows store e hwait heff =>
    change st.run S.store c = .ok (rows, store) at heff
    obtain ⟨m, hm, _⟩ := hg.2 i q _ hwait
    have hp : Goes (r e) (marks.rejected m st e) := hm.2.2 e
    have htaking : S.taking (.lose i c e : ChatMove) = some (st, c) := by
      simp [System.taking, hwait]
    refine h.effect hg hs hok htaking hwait hm heff hp ?_ ?_ ?_
    · intro id hsubject
      exact .inl (subject_rejected hsubject)
    · rintro ⟨_, _, _, _, _, _, _, heq, _⟩
      cases heq
    · intro replyTo id hold hi hid hsubject
      obtain ⟨id', _, hmarks⟩ | ⟨_, id', rfl⟩ :=
        hok.checked i e replyTo (.inr ⟨c, rfl⟩) hi hold q st k r hwait
      · have hnext := (marks_iff hp).mp hmarks
        obtain rfl : id' = id := Option.some.inj ((subject_rejected hnext).symm.trans hsubject)
        refine .inl ⟨hnext, ?_⟩
        rintro id'' rfl
        obtain ⟨_, rfl⟩ := decided_of_may hm.1
        cases hnext
      · obtain ⟨_, rfl⟩ := decided_of_may hm.1
        cases hsubject
        exact .inr ⟨rfl, rfl⟩
  | @around x store heff =>
    cases heff
    intro replyTo hended
    have hold : S.store.BatchEnded replyTo := by
      cases x <;> exact ⟨hended.nonempty, hended.terminal, hended.group⟩
    apply (h replyTo hold).of_eq
    · cases x <;> rfl
    · cases x <;> rfl

theorem settled_of_reachable (hT : (server cfg).ReachableIf EndsOnce T) : Settled T := by
  apply hT.induction
  · rintro S ⟨⟨hmessages, _⟩, _⟩ replyTo hended
    refine absurd ?_ hended.nonempty
    simp [Store.siblings, hmessages]
  · intro S a T hreach h hok hstep
    exact h.step hreach ((guards_marks cfg).reachable hreach) hok hstep

/-- When no request is in flight, a batch of a group thread that has ended has one mark. -/
theorem batch_marked_once (hT : (server cfg).ReachableIf EndsOnce T) (hidle : T.Idle)
    (hended : T.store.BatchEnded replyTo) :
    ∃! m, m ∈ T.store.siblings replyTo ∧ m.batchComplete = some true := by
  have hnobody : ∀ i, i ∉ checkers T replyTo := by
    rintro i ⟨q, p, hi, id, _, hmarks⟩
    have hdone := hidle i
    rw [System.ended, hi] at hdone
    cases p with
    | await => cases hdone
    | reply => exact hmarks.elim
    | raise => exact hmarks.elim
  obtain ⟨i, hone, _⟩ | ⟨_, id, hmarked⟩ := settled_of_reachable hT replyTo hended
  · exact absurd (hone ▸ Set.mem_singleton i) (hnobody i)
  · obtain ⟨m, hm, hmark, hid⟩ : id ∈ T.store.marked replyTo := hmarked ▸ Set.mem_singleton id
    refine ⟨m, ⟨hm, hmark⟩, ?_⟩
    rintro m' ⟨hm', hmark'⟩
    have hin : m'.id ∈ T.store.marked replyTo := ⟨m', hm', hmark', rfl⟩
    rw [hmarked, Set.mem_singleton_iff] at hin
    exact Table.eq_of_key_eq (mem_siblings.mp hm').1 (mem_siblings.mp hm).1 (hin.trans hid.symm)

/-- One request at a time, which closes messages by a callback and adds to no marked batch. -/
def closesAlone (S : State) : ChatMove → Bool
  | .arrive _ | .environment _ => true
  | .resume i _ => S.alone i &&
    match S.requests i with
    | some (_, .await (.closeMessages _) ..) => false
    | some (_, .await (.promoteThread _) ..) => false
    | some (_, .await (.thinkMessage ..) ..) => false
    | some (_, .await (.createPlaceholder p) ..) =>
      (S.store.siblings p.replyTo).all fun m => m.batchComplete ≠ some true
    | _ => true
  | .reject .. | .lose .. => false

theorem endsOnce_of_alone {a : ChatMove} (hS : (server cfg).ReachableIf EndsOnce S)
    (h : closesAlone S a = true) : EndsOnce S a := by
  have hs : Lineage cfg S.store := lineage_of_reachable hS.reachable
  have hg : GuardedMarks S := (guards_marks cfg).reachable hS
  refine ⟨?_, ?_, ?_⟩
  · rintro replyTo ⟨st, c, rows, s', htaking, hrun, hold, hended⟩
    cases a with
    | resume i c₀ =>
      obtain ⟨halone, hst⟩ := Bool.and_eq_true_iff.mp h
      simp only [System.taking] at htaking
      split at htaking
      · rename_i q st₀ k r hwait
        cases htaking
        rw [hwait] at hst
        obtain ⟨m, hm, _⟩ := hg.2 i q _ hwait
        obtain ⟨id, b, rfl⟩ : ∃ id b, st = .finishMessage id b := by
          by_contra hnot
          refine hold (hended.before hs hg.1.hosted hrun (fun _ h => ?_) fun msg _ msg' hw => ?_)
          · subst h
            cases hst
          · cases hw with
            | finished => exact absurd ⟨_, _, rfl⟩ hnot
            | thought => cases hst
            | closed => cases hst
            | batched => rfl
            | chained => rfl
        refine .inl ⟨⟨i, c, q, id, b, k, r, rfl, hwait⟩, Set.eq_empty_of_forall_notMem fun j hj => ?_⟩
        by_cases hji : j = i
        · subst hji
          obtain ⟨id', _, hsubject⟩ := (mem_checkers hwait hm).mp hj
          cases m with
          | idle => cases hsubject
          | due => exact hm.1
          | grouped => cases hm.1
          | decided => cases hm.1
        · obtain ⟨q', p', hj', id', _, hmarks⟩ := hj
          have hdone := ended_of_alone hS halone hji
          rw [System.ended, hj'] at hdone
          cases p' with
          | await => cases hdone
          | reply => exact hmarks
          | raise => exact hmarks
      · cases htaking
    | lose => cases h
    | arrive => cases htaking
    | reject => cases htaking
    | environment => cases htaking
  · rintro i e replyTo (rfl | ⟨c, rfl⟩)
    · cases h
    · cases h
  · intro p c htaking
    cases a with
    | resume i c₀ =>
      obtain ⟨halone, hst⟩ := Bool.and_eq_true_iff.mp h
      simp only [System.taking] at htaking
      split at htaking
      · rename_i q st₀ k r hwait
        cases htaking
        rw [hwait] at hst
        constructor
        · apply Set.eq_empty_of_forall_notMem
          rintro id ⟨m, hm, hmark, _⟩
          have hno := List.all_eq_true.mp hst m hm
          simp [hmark] at hno
        · intro id _ j q' k' r' hj
          by_cases hji : j = i
          · subst hji
            cases hwait.symm.trans hj
          · have hdone := ended_of_alone hS halone hji
            rw [System.ended, hj] at hdone
            cases hdone
      · cases htaking
    | lose => cases h
    | arrive => cases htaking
    | reject => cases htaking
    | environment => cases htaking

namespace Sample

/-- A group of two agents is asked, and the first of them answers. -/
def firstOfTwo : List ChatMove :=
  serve 0 (openThread [1, 2]) 8 ++ serve 1 (callback 12 "complete" "done") 6

theorem batchEnded {moves : List ChatMove} {replyTo : Uuid}
    (h : (after moves).store.siblings replyTo ≠ [] ∧ ((after moves).store.siblings replyTo).all
      fun m => m.status.isTerminal && ((after moves).store.thread? m.threadId).any
        (·.type = .group)) : (after moves).store.BatchEnded replyTo := by
  have hall : ∀ m ∈ (after moves).store.siblings replyTo, m.status.isTerminal = true ∧
      ∃ t, (after moves).store.thread? m.threadId = some t ∧ t.type = .group := by
    simpa [Option.any_eq_true] using h.2
  exact ⟨h.1, fun m hm => (hall m hm).1, fun m hm => (hall m hm).2⟩

end Sample

theorem batch_marked_once_sample :
    ∃ moves, ∃! m, m ∈ (Sample.after moves).store.siblings 11 ∧ m.batchComplete = some true := by
  let moves := Sample.firstOfTwo ++ Sample.serve 2 (Sample.callback 13 "complete" "done") 7
  have hT : (server Sample.config).ReachableIf EndsOnce (Sample.after moves) := by
    apply Machine.reachableIf_of_accepts (C := closesAlone) _ Sample.fresh_start (by decide +kernel)
    intro S a hS h
    exact endsOnce_of_alone hS h
  refine ⟨moves, batch_marked_once hT ?_ ?_⟩
  · exact idle_of_ended hT.reachable (by decide +kernel)
  · exact Sample.batchEnded (by decide +kernel)

/-- The user cancels what is left of the batch, and no message of it is marked. -/
theorem cancelled_batch_unmarked :
    ¬ ∀ T replyTo, (server Sample.config).Reachable T → T.Idle → T.store.BatchEnded replyTo →
      ∃! m, m ∈ T.store.siblings replyTo ∧ m.batchComplete = some true := by
  intro hall
  let moves := Sample.firstOfTwo ++ Sample.serve 2 (.cancel Sample.user 10) 2
  have hT : (server Sample.config).Reachable (Sample.after moves) :=
    Sample.reachable (by decide +kernel)
  have hidle : (Sample.after moves).Idle := idle_of_ended hT (by decide +kernel)
  obtain ⟨m, ⟨hm, hmark⟩, _⟩ := hall _ 11 hT hidle (Sample.batchEnded (by decide +kernel))
  have hnone : ∀ m ∈ (Sample.after moves).store.siblings 11, m.batchComplete = none := by
    decide +kernel
  cases (hnone m hm).symm.trans hmark

end Settled

end Hill90.Chat
