import Hill90.Chat.Grant

/-! # One open reply for each agent of a thread

The look that grants a reply excludes neither a reply that is `thinking` nor a grant of
another request.  In a run in which it finds none of the two, an agent of a thread has an
open message or somebody holds a grant for one, and never more than one of these.
-/

namespace Hill90.Chat

open Program Service

def Statement.Allows (threadId agentUuid : Uuid) : Statement → Prop
  | selectPending threadId' agentUuid' => threadId' = threadId ∧ agentUuid' = agentUuid
  | createThread .. => True
  | _ => False

def Statement.Opens (threadId agentUuid : Uuid) : Statement → Prop
  | createPlaceholder p => p.threadId = threadId ∧ p.agentId = agentUuid
  | _ => False

def Granted (threadId agentUuid : Uuid) (p : Handler Response) : Prop :=
  p.Reaches credible (Statement.Allows threadId agentUuid) (Statement.Opens threadId agentUuid)

def Store.replies (s : Store) (threadId agentUuid : Uuid) : List Message :=
  s.messages.rows.filter fun m =>
    m.threadId = threadId && m.authorId = agentUuid && m.authorType = .agent

/-- A look that finds no pending reply finds none that is `thinking` either, and no other
request holds a grant for the agent. -/
def LooksInTime (S : State) (a : ChatMove) : Prop :=
  ∀ i c q threadId agentUuid k r, a = .resume i c →
    S.requests i = some (q, .await (.selectPending threadId agentUuid) k r) →
    (∀ m ∈ S.store.replies threadId agentUuid, m.status ≠ .pending) →
    (∀ m ∈ S.store.replies threadId agentUuid, m.status ≠ .thinking) ∧
      ∀ j q' p', j ≠ i → S.requests j = some (q', p') → ¬Granted threadId agentUuid p'

section Effects

variable {s s' : Store} {st : Statement} {threadId agentUuid : Uuid} {m m' : Message}

theorem mem_replies : m ∈ s.replies threadId agentUuid ↔
    m ∈ s.messages.rows ∧ m.threadId = threadId ∧ m.authorId = agentUuid ∧ m.authorType = .agent := by
  simp [Store.replies, and_assoc]

/-- An open message is open already before the statement, unless it is inserted for the agent. -/
theorem open_of_run {c : Choice} {rows : st.Rows} (hrun : st.run s c = .ok (rows, s'))
    (hm : m ∈ s'.replies threadId agentUuid) (hopen : m.status.isOpen = true) :
    (∃ m₀ ∈ s.replies threadId agentUuid, m₀.status.isOpen = true ∧ m₀.id = m.id) ∨
      (st.Opens threadId agentUuid ∧ m.id = s.nextId) := by
  obtain ⟨hrow, hthread, hauthor, htype⟩ := mem_replies.mp hm
  obtain hold | ⟨m₀, hm₀, hrewritten⟩ | ⟨hcreated, _⟩ := (effect_of_run hrun).origin hrow
  · exact .inl ⟨m, mem_replies.mpr ⟨hold, hthread, hauthor, htype⟩, hopen, rfl⟩
  · left
    refine ⟨m₀, mem_replies.mpr ⟨hm₀, ?_⟩, ?_, hrewritten.id_eq.symm⟩
    · rw [← hrewritten.threadId_eq, ← hrewritten.author_eq.1, ← hrewritten.author_eq.2]
      exact ⟨hthread, hauthor, htype⟩
    · by_contra hclosed
      rw [(hrewritten.of_closed (Bool.not_eq_true _ ▸ hclosed)).1] at hopen
      exact hclosed hopen
  · right
    cases hcreated with
    | opened => cases htype
    | said => cases htype
    | placed => exact ⟨⟨hthread, hauthor⟩, rfl⟩

end Effects

section Granted

variable {S : State} {modes : ℕ → Option Grants} {threadId agentUuid : Uuid}
  {p : Handler Response} {m : Grants}

/-- A request that can still open a reply holds a grant for it. -/
theorem held_of_granted {Q : Response → Grants → Prop}
    (h : p.Meets grants Q (fun _ _ => True) m) (hp : Granted threadId agentUuid p) :
    (threadId, agentUuid) ∈ m.held := by
  apply h.of_reaches (P := fun m => (threadId, agentUuid) ∈ m.held) _ _ _ hp
  · intro m st hmay hopens
    cases st
    case createPlaceholder row =>
      obtain ⟨rfl, rfl⟩ := hopens
      exact hmay
    all_goals exact hopens.elim
  · intro m st rows hreturns hnot hheld
    cases st
    case getThreadAgents =>
      simp only [grants] at hheld
      split at hheld <;> exact hheld
    case selectTrigger =>
      cases rows <;> exact hheld
    case selectPending threadId' agentUuid' =>
      simp only [grants] at hheld
      split at hheld
      · exact hheld
      · obtain heq | hheld := hheld
        · cases heq
          exact absurd ⟨rfl, rfl⟩ hnot
        · exact hheld
    case createThread => exact absurd trivial hnot
    case createPlaceholder => exact hheld.1
    all_goals exact hheld
  · intro m st e _ hheld
    cases st
    case createPlaceholder => exact hheld.1
    all_goals exact hheld

/-- No open reply of the agent, and no grant for one but maybe that of request `i`. -/
def Clear (S : State) (i : ℕ) (threadId agentUuid : Uuid) : Prop :=
  (∀ m ∈ S.store.replies threadId agentUuid, m.status.isOpen = false) ∧
    ∀ j q p, j ≠ i → S.requests j = some (q, p) → ¬Granted threadId agentUuid p

/-- What the guards are for: an agent has an open reply or somebody holds a grant, not both. -/
structure OneOpen (S : State) : Prop where
  one : ∀ threadId agentUuid, ∀ m ∈ S.store.replies threadId agentUuid,
    ∀ m' ∈ S.store.replies threadId agentUuid, m.status.isOpen = true → m'.status.isOpen = true →
      m.id = m'.id
  clear : ∀ i q p threadId agentUuid, S.requests i = some (q, p) → Granted threadId agentUuid p →
    Clear S i threadId agentUuid

variable {i : ℕ} {q : Request} {st : Statement} {k : st.Rows → Handler Response}
  {r : Failure → Handler Response} {store : Store}

/-- A statement of request `i` keeps the invariant if it opens a reply only with a
grant, and if its request has only grants it had before or that are new to all. -/
theorem OneOpen.turn (h : OneOpen S) (hwait : S.requests i = some (q, .await st k r))
    (hstore : ∀ threadId agentUuid, ∀ m ∈ store.replies threadId agentUuid, m.status.isOpen = true →
      (∃ m₀ ∈ S.store.replies threadId agentUuid, m₀.status.isOpen = true ∧ m₀.id = m.id) ∨
        (st.Opens threadId agentUuid ∧ m.id = S.store.nextId))
    (hgrant : ∀ threadId agentUuid, Granted threadId agentUuid p →
      ¬st.Opens threadId agentUuid ∧
        (Granted threadId agentUuid (.await st k r) ∨ Clear S i threadId agentUuid)) :
    OneOpen (S.proceed i store q p) := by
  have hopens : ∀ {threadId agentUuid}, st.Opens threadId agentUuid → Clear S i threadId agentUuid :=
    fun hst => h.clear i q _ _ _ hwait (.inl hst)
  constructor
  · intro threadId agentUuid m hm m' hm' hopen hopen'
    obtain ⟨m₀, hm₀, hopen₀, hid⟩ | ⟨hst, hid⟩ := hstore _ _ m hm hopen
    · obtain ⟨m₁, hm₁, hopen₁, hid'⟩ | ⟨hst, _⟩ := hstore _ _ m' hm' hopen'
      · rw [← hid, ← hid']
        exact h.one _ _ m₀ hm₀ m₁ hm₁ hopen₀ hopen₁
      · rw [(hopens hst).1 m₀ hm₀] at hopen₀
        cases hopen₀
    · obtain ⟨m₁, hm₁, hopen₁, _⟩ | ⟨_, hid'⟩ := hstore _ _ m' hm' hopen'
      · rw [(hopens hst).1 m₁ hm₁] at hopen₁
        cases hopen₁
      · rw [hid, hid']
  · intro j q' p' threadId agentUuid hj hgranted
    -- in either case the grant of `j` was clear before, and `st` does not open its reply
    have hold : Clear S j threadId agentUuid ∧ ¬st.Opens threadId agentUuid ∧
        ∀ j', j' ≠ j → j' = i → ¬Granted threadId agentUuid p := by
      rw [System.proceed_requests] at hj
      split at hj
      · cases hj
        subst j
        obtain ⟨hnot, hold | hclear⟩ := hgrant _ _ hgranted
        · exact ⟨h.clear i q _ _ _ hwait hold, hnot, fun j' hne heq => absurd heq hne⟩
        · exact ⟨hclear, hnot, fun j' hne heq => absurd heq hne⟩
      · rename_i hne
        have hclear := h.clear j q' p' _ _ hj hgranted
        refine ⟨hclear, fun hst => ?_, fun _ _ _ hp => ?_⟩
        · exact hclear.2 i q _ (Ne.symm hne) hwait (.inl hst)
        · obtain ⟨_, hold | hclear'⟩ := hgrant _ _ hp
          · exact hclear.2 i q _ (Ne.symm hne) hwait hold
          · exact hclear'.2 j q' p' hne hj hgranted
    obtain ⟨hclear, hnot, hother⟩ := hold
    constructor
    · intro m hm
      by_contra hopen
      obtain ⟨m₀, hm₀, hopen₀, _⟩ | ⟨hst, _⟩ := hstore _ _ m hm (Bool.not_eq_false _ ▸ hopen)
      · rw [hclear.1 m₀ hm₀] at hopen₀
        cases hopen₀
      · exact hnot hst
    · intro j' q'' p'' hne hj'
      rw [System.proceed_requests] at hj'
      split at hj'
      · cases hj'
        exact hother j' hne ‹_›
      · exact hclear.2 j' q'' p'' hne hj'

variable {cfg : Config} {T : State} {a : ChatMove}

abbrev FollowsGrants (S : State) (modes : ℕ → Option Grants) : Prop :=
  Follows grants (fun _ _ _ => True) S modes

theorem issued_of_granted (hfollows : FollowsGrants S modes) (hknown : Known S.store modes)
    {j : ℕ} {q' : Request} {p' : Handler Response} (hj : S.requests j = some (q', p'))
    (hgranted : Granted threadId agentUuid p') : threadId < S.store.nextId := by
  obtain ⟨m, hm, hmeets⟩ := hfollows.present j q' p' hj
  exact (hknown.modes j m hm).2 _ (held_of_granted hmeets hgranted)

theorem clear_of_unissued (hfollows : FollowsGrants S modes) (hknown : Known S.store modes)
    (hthread : S.store.nextId ≤ threadId) : Clear S i threadId agentUuid := by
  constructor
  · intro m hm
    obtain ⟨hrow, rfl, _⟩ := mem_replies.mp hm
    exact absurd (hknown.store.messages m hrow).2 (Nat.not_lt_of_le hthread)
  · intro j q' p' _ hj hgranted
    exact absurd (issued_of_granted hfollows hknown hj hgranted) (Nat.not_lt_of_le hthread)

theorem granted_of_rejected (hfollows : FollowsGrants S modes)
    (hwait : S.requests i = some (q, .await st k r)) {e : Failure}
    (hgranted : Granted threadId agentUuid (r e)) :
    ¬st.Opens threadId agentUuid ∧ Granted threadId agentUuid (.await st k r) := by
  obtain ⟨m, _, hmay, _, herr⟩ := hfollows.waiting hwait
  have hheld := held_of_granted (herr e) hgranted
  constructor
  · intro hst
    cases st
    case createPlaceholder row =>
      obtain ⟨rfl, rfl⟩ := hst
      exact hheld.2 rfl
    all_goals exact hst
  · refine .inr ⟨fun hst => ?_, .inr ⟨e, hgranted⟩⟩
    cases st
    case selectPending =>
      obtain ⟨rfl, rfl⟩ := hst
      exact hmay.2 hheld
    case createThread =>
      have hempty : m.held = ∅ := hmay
      change _ ∈ m.held at hheld
      rw [hempty] at hheld
      exact hheld
    all_goals exact hst

/-- An answer grants a reply only to a look in time, or in a new thread. -/
theorem granted_of_answered (hfollows : FollowsGrants S modes)
    (hknown : Known S.store modes) {c : Choice} (hok : LooksInTime S (.resume i c))
    (hwait : S.requests i = some (q, .await st k r)) {rows : st.Rows}
    (hrun : st.run S.store c = .ok (rows, store)) (hgranted : Granted threadId agentUuid (k rows)) :
    ¬st.Opens threadId agentUuid ∧
      (Granted threadId agentUuid (.await st k r) ∨ Clear S i threadId agentUuid) := by
  obtain ⟨m, -, hmay, hrows, -⟩ := hfollows.waiting hwait
  have hcredible := credible_of_run hrun
  have hheld := held_of_granted (hrows rows hcredible) hgranted
  by_cases hallows : st.Allows threadId agentUuid
  · cases st
    case selectPending threadId' agentUuid' =>
      obtain ⟨rfl, rfl⟩ := hallows
      refine ⟨id, .inr ?_⟩
      have hpending : ∀ m' ∈ S.store.replies threadId' agentUuid', m'.status ≠ .pending := by
        intro m' hm' hpending
        obtain ⟨hrow, hthread, hauthor, htype⟩ := mem_replies.mp hm'
        have hfound : rows = true := by
          cases hrun
          refine List.any_eq_true.mpr ⟨m', hrow, ?_⟩
          simp [hthread, hauthor, htype, hpending]
        rw [hfound] at hheld
        exact hmay.2 hheld
      obtain ⟨hthinking, hnobody⟩ := hok i c q _ _ k r rfl hwait hpending
      refine ⟨fun m' hm' => ?_, hnobody⟩
      have h₁ := hpending m' hm'
      have h₂ := hthinking m' hm'
      cases hstatus : m'.status <;> simp_all [Status.isOpen]
    case createThread type title createdBy lead agentUuids content key =>
      refine ⟨id, .inr ?_⟩
      obtain ⟨thread, row⟩ := rows
      obtain ⟨_, _, _, hid, _⟩ := addThread_ok hrun
      have hthread : threadId = thread.id := hheld.1
      exact clear_of_unissued hfollows hknown (by rw [hthread, hid])
    all_goals exact hallows.elim
  · constructor
    · intro hst
      cases st
      case createPlaceholder row =>
        obtain ⟨rfl, rfl⟩ := hst
        exact hheld.2 rfl
      all_goals exact hst
    · exact .inl (.inr ⟨hallows, .inl ⟨rows, hcredible, hgranted⟩⟩)

theorem OneOpen.step (h : OneOpen S) (hfollows : FollowsGrants S modes)
    (hknown : Known S.store modes) (hok : LooksInTime S a)
    (hstep : (server cfg).step S a = some T) : OneOpen T := by
  have hsame : ∀ {st : Statement} (threadId agentUuid : Uuid),
      ∀ m ∈ S.store.replies threadId agentUuid, m.status.isOpen = true →
        (∃ m₀ ∈ S.store.replies threadId agentUuid, m₀.status.isOpen = true ∧ m₀.id = m.id) ∨
          (st.Opens threadId agentUuid ∧ m.id = S.store.nextId) :=
    fun _ _ m hm hopen => .inl ⟨m, hm, hopen, rfl⟩
  cases moved_of_step hstep with
  | arrived q =>
    have hnone : ∀ {t u}, ¬Granted t u (q.handler cfg) :=
      fun hgranted => held_of_granted (meets_grants cfg q) hgranted
    refine ⟨h.one, fun j q' p' t u hj hgranted => ?_⟩
    rw [System.enter_requests] at hj
    split at hj
    · cases hj
      exact absurd hgranted hnone
    · obtain ⟨hclosed, hnobody⟩ := h.clear j q' p' t u hj hgranted
      refine ⟨hclosed, fun j' q'' p'' hne hj' => ?_⟩
      rw [System.enter_requests] at hj'
      split at hj'
      · cases hj'
        exact hnone
      · exact hnobody j' q'' p'' hne hj'
  | answered hwait heff =>
    exact h.turn hwait (fun t u m hm hopen => open_of_run heff hm hopen)
      fun t u => granted_of_answered hfollows hknown hok hwait heff
  | refused hwait _ =>
    refine h.turn hwait hsame fun t u hgranted => ?_
    obtain ⟨hnot, hold⟩ := granted_of_rejected hfollows hwait hgranted
    exact ⟨hnot, .inl hold⟩
  | rejected hwait =>
    refine h.turn hwait hsame fun t u hgranted => ?_
    obtain ⟨hnot, hold⟩ := granted_of_rejected hfollows hwait hgranted
    exact ⟨hnot, .inl hold⟩
  | lost hwait heff =>
    refine h.turn hwait (fun t u m hm hopen => open_of_run heff hm hopen) fun t u hgranted => ?_
    obtain ⟨hnot, hold⟩ := granted_of_rejected hfollows hwait hgranted
    exact ⟨hnot, .inl hold⟩
  | @around x store heff =>
    cases heff
    have hreplies : ∀ t u, (x.change S.store).replies t u = S.store.replies t u := by
      intro t u
      cases x <;> rfl
    constructor
    · intro t u
      change ∀ m ∈ (x.change S.store).replies t u, ∀ m' ∈ (x.change S.store).replies t u, _
      rw [hreplies]
      exact h.one t u
    · intro j q' p' t u hj hgranted
      obtain ⟨hclosed, hnobody⟩ := h.clear j q' p' t u hj hgranted
      refine ⟨fun m hm => hclosed m ?_, hnobody⟩
      change m ∈ (x.change S.store).replies t u at hm
      rwa [hreplies] at hm

theorem oneOpen_of_reachable (hT : (server cfg).ReachableIf LooksInTime T) : OneOpen T := by
  have hall : ∃ modes, FollowsGrants T modes ∧ Known T.store modes ∧ OneOpen T := by
    apply hT.invariant (I := fun S => ∃ modes, FollowsGrants S modes ∧ Known S.store modes ∧ OneOpen S)
    · intro S hS
      have hreachable : (server cfg).Reachable S := ⟨S, [], hS, .nil S⟩
      obtain ⟨modes, hfollows, hknown⟩ := (keeps_grants cfg).reachable hreachable
      obtain ⟨⟨hmessages, _⟩, hrequests, _⟩ := hS
      refine ⟨modes, hfollows, hknown, ?_, ?_⟩
      · intro t u m hm
        rw [mem_replies, hmessages] at hm
        cases hm.1
      · intro i q p t u hi
        rw [hrequests] at hi
        cases hi
    · rintro S a T ⟨modes, hfollows, hknown, h⟩ hok hstep
      obtain ⟨modes', hfollows', hknown', _⟩ := (keeps_grants cfg).step hfollows hknown hstep
      exact ⟨modes', hfollows', hknown', h.step hfollows hknown hok hstep⟩
  obtain ⟨_, _, _, h⟩ := hall
  exact h

/-- In every run that looks in time an agent has at most one open message in a thread. -/
theorem one_open_reply (hT : (server cfg).ReachableIf LooksInTime T) {m m' : Message}
    (hm : m ∈ T.store.messages.rows) (hm' : m' ∈ T.store.messages.rows)
    (hagent : m.authorType = .agent) (hagent' : m'.authorType = .agent)
    (hthread : m'.threadId = m.threadId) (hauthor : m'.authorId = m.authorId)
    (hopen : m.status.isOpen = true) (hopen' : m'.status.isOpen = true) : m' = m := by
  have hmem := mem_replies.mpr ⟨hm, rfl, rfl, hagent⟩
  have hmem' := mem_replies.mpr ⟨hm', hthread, hauthor, hagent'⟩
  have hid := (oneOpen_of_reachable hT).one _ _ m hmem m' hmem' hopen hopen'
  exact Table.eq_of_key_eq hm' hm hid.symm

/-- Nobody is thinking, and the other requests have been answered. -/
def idleBut (S : State) : ChatMove → Bool
  | .resume i _ =>
    (S.store.messages.rows.all fun m => m.status ≠ .thinking) &&
      (List.range S.arrivals).all fun j => j = i ||
        match S.requests j with
        | some (_, .await ..) => false
        | _ => true
  | _ => true

theorem looksInTime_of_idle (hS : (server cfg).Reachable S) (h : idleBut S a = true) :
    LooksInTime S a := by
  rintro i c q t u k r rfl - -
  simp only [idleBut, Bool.and_eq_true, List.all_eq_true, decide_eq_true_eq, Bool.or_eq_true] at h
  constructor
  · intro m hm
    exact h.1 m (mem_replies.mp hm).1
  · intro j q' p' hne hj hgranted
    obtain ⟨modes, hfollows, _⟩ := (keeps_grants cfg).reachable hS
    have hlt : j < S.arrivals := by
      by_contra hle
      cases (hfollows.later j (Nat.le_of_not_lt hle)).symm.trans hj
    obtain heq | hidle := h.2 j (List.mem_range.mpr hlt)
    · exact hne heq
    · rw [hj] at hidle
      cases p' with
      | await st k r => cases hidle
      | _ => exact hgranted

/-- `ann` answers, and the next message of the user opens one reply of hers again. -/
theorem one_open_reply_sample :
    ∃ (moves : List ChatMove) (m : Message), m ∈ (Sample.after moves).store.replies 10 1 ∧
      m.status = .pending ∧ ∀ m' ∈ (Sample.after moves).store.replies 10 1,
        m'.status.isOpen = true → m' = m := by
  let send : Request := .sendMessage { user := Sample.user, threadId := 10, message := some "and?" }
  let moves := Sample.serve 0 (Sample.openThread [1]) 5 ++
    Sample.serve 1 (Sample.callback 12 "complete" "done") 5 ++ Sample.serve 2 send 10
  let m : Message :=
    { id := 14, seq := 5, threadId := 10, authorId := 1, authorType := .agent, role := .assistant
      content := "", status := .pending, replyTo := some 13, createdAt := 0, updatedAt := 0 }
  have hT : (server Sample.config).ReachableIf LooksInTime (Sample.after moves) := by
    apply Machine.reachableIf_of_accepts (C := idleBut) _ Sample.fresh_start (by decide +kernel)
    intro S a hS h
    exact looksInTime_of_idle hS.reachable h
  have hm : m ∈ (Sample.after moves).store.replies 10 1 := by decide +kernel
  refine ⟨moves, m, hm, rfl, fun m' hm' hopen' => ?_⟩
  obtain ⟨hrow, hthread, hauthor, htype⟩ := mem_replies.mp hm
  obtain ⟨hrow', hthread', hauthor', htype'⟩ := mem_replies.mp hm'
  exact one_open_reply hT hrow hrow' htype htype' (hthread'.trans hthread.symm)
    (hauthor'.trans hauthor.symm) rfl hopen'

/-- A message sent while `ann` is thinking opens a second reply of hers. -/
theorem thinking_passes_the_guard :
    ¬ ∀ T, (server Sample.config).Reachable T → ∀ m ∈ T.store.messages.rows,
      ∀ m' ∈ T.store.messages.rows, m.authorType = .agent → m'.authorType = .agent →
        m'.threadId = m.threadId → m'.authorId = m.authorId → m.status.isOpen = true →
          m'.status.isOpen = true → m' = m := by
  intro hall
  let send : Request := .sendMessage { user := Sample.user, threadId := 10, message := some "and?" }
  let moves := Sample.serve 0 (Sample.openThread [1]) 4 ++
    Sample.serve 1 (Sample.callback 12 "thinking" "reading") 2 ++ Sample.serve 2 send 9
  let m : Message :=
    { id := 12, seq := 3, threadId := 10, authorId := 1, authorType := .agent, role := .assistant
      content := "reading", status := .thinking, replyTo := some 11, createdAt := 0, updatedAt := 0 }
  let m' : Message :=
    { id := 14, seq := 5, threadId := 10, authorId := 1, authorType := .agent, role := .assistant
      content := "", status := .pending, replyTo := some 13, createdAt := 0, updatedAt := 0 }
  have hT : (server Sample.config).Reachable (Sample.after moves) :=
    Sample.reachable (by decide +kernel)
  have hm : m ∈ (Sample.after moves).store.messages.rows := by decide +kernel
  have hm' : m' ∈ (Sample.after moves).store.messages.rows := by decide +kernel
  have hsame : m' = m := hall _ hT m hm m' hm' rfl rfl rfl rfl rfl rfl
  exact absurd (congrArg Message.id hsame) (by decide)

end Granted

end Hill90.Chat
