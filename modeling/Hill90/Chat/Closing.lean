import Hill90.Chat.Finality

/-! # Cancel, removal and stop

Each of the three closes the pending messages in its scope.  A message that is being
answered at that moment, with status `thinking`, escapes the UPDATE and stays open; if
none is, every message that was open in the scope is closed for good, and the callbacks that
come later for it change nothing.
-/

namespace Hill90.Chat

open Program Service

/-- The closing statements a request must have run before it may report success. -/
def Request.closers : Request → List Closer
  | cancel _ threadId => [.cancelled threadId]
  | updateParticipants _ threadId _ remove => remove.map (.removed threadId)
  | stopAgent agentUuid => [.stopped agentUuid]
  | _ => []

/-- When request `i` runs a closing statement, no agent is thinking in its scope, and the
one whose failure is swallowed does not fail. -/
def ClosesCleanly (i : ℕ) (S : State) (a : ChatMove) : Prop :=
  ∀ q c k r, S.requests i = some (q, .await (.closeMessages c) k r) → a.subject = some i →
    (∀ agentUuid, c = .stopped agentUuid → ∀ e, a ≠ .reject i e) ∧
    ∀ m ∈ S.store.messages.rows, c.scope m = true → m.authorType = .agent → m.status ≠ .thinking

/-- The message is terminal or gone, and no move of a callback for it that arrives
later touches the store. -/
def ClosedForGood (cfg : Config) (T : State) (id : Uuid) : Prop :=
  (∀ m, T.store.message? id = some m → m.status.isTerminal = true) ∧
  ∀ U V moves a j req p, (server cfg).Run T moves U → T.arrivals ≤ j →
    U.requests j = some (.callback req, p) → req.body.messageId = some id → a.subject = some j →
    (server cfg).step U a = some V → V.store = U.store

section Late

variable {s s' : Store} {id : Uuid}

theorem count_of_settled (h : s.Settled id) :
    (s.messages.count fun m => m.id = id && m.status.isOpen) = 0 := by
  rw [Table.count_eq_zero_iff]
  intro m hm
  by_cases hid : m.id = id
  · have hget : s.message? id = some m := hid ▸ Table.mem_iff_get?.mp hm
    simp [h.closed m hget]
  · simp [hid]

theorem advance_of_settled (h : s.Settled id) (f : ℕ → Message → Message)
    (hf : ∀ n m, (f n m).id = m.id) :
    s.advance (fun m => m.id = id && m.status.isOpen) f hf = (0, s) := by
  have hcount := count_of_settled h
  simp only [Store.advance, hcount, Table.patch_eq_self hcount, Nat.add_zero]

/-- What a callback of a settled message may still be about to do. -/
def Late (id : Uuid) (s : Store) (m : Errand) : Prop :=
  s.Settled id ∧ (m = .armed id ∨ m = .lost id)

theorem run_of_late {m : Errand} {c : Choice} {st : Statement} {rows : st.Rows}
    (h : Late id s m) (hmay : errands.may m st) (hrun : st.run s c = .ok (rows, s')) :
    s' = s ∧ errands.returned m st rows = .lost id := by
  obtain ⟨hsettled, rfl | rfl⟩ := h
  · have hanswers : st.answers = some id := hmay
    cases st
    case thinkMessage id' b =>
      cases hanswers
      have hthink : s.think id b = (0, s) := advance_of_settled hsettled _ _
      have hpair : s.think id b = (rows, s') := Except.ok.inj hrun
      rw [hthink] at hpair
      cases hpair
      exact ⟨rfl, rfl⟩
    case finishMessage id' b =>
      cases hanswers
      have hfinish : s.finish id b = (0, s) := advance_of_settled hsettled _ _
      have hpair : s.finish id b = (rows, s') := Except.ok.inj hrun
      rw [hfinish] at hpair
      cases hpair
      exact ⟨rfl, rfl⟩
    all_goals cases hanswers
  · cases hmay
    cases hrun
    exact ⟨rfl, rfl⟩

theorem rejected_of_late {m : Errand} {st : Statement} {e : Failure} (h : Late id s m) :
    errands.rejected m st e = .lost id := by
  obtain ⟨_, rfl | rfl⟩ := h <;> rfl

variable {cfg : Config} {S T : State} {moves : List ChatMove}

/-- The callbacks of a settled message that arrive after number `n` have lost. -/
def LateCallbacks (id : Uuid) (n : ℕ) (S : State) : Prop :=
  S.store.Settled id ∧ n ≤ S.arrivals ∧ ∀ j req p, n ≤ j →
    S.requests j = some (.callback req, p) → req.body.messageId = some id →
    ∃ m, p.Meets errands (fun _ _ => True) (fun _ _ => True) m ∧ Late id S.store m

theorem LateCallbacks.step {n : ℕ} {a : ChatMove} (h : LateCallbacks id n S)
    (hstep : (server cfg).step S a = some T) : LateCallbacks id n T ∧
      ∀ j req p, n ≤ j → S.requests j = some (.callback req, p) → req.body.messageId = some id →
        a.subject = some j → T.store = S.store := by
  obtain ⟨hsettled, hn, hlate⟩ := h
  have hproceed : ∀ {i : ℕ} {q : Request} {p : Handler Response} {store : Store},
      store.Settled id →
      (∀ req, n ≤ i → q = .callback req → req.body.messageId = some id →
        ∃ m, p.Meets errands (fun _ _ => True) (fun _ _ => True) m ∧ Late id store m) →
      LateCallbacks id n (S.proceed i store q p) := by
    intro i q p store hstore hown
    refine ⟨hstore, hn, fun j req p' hj hreq hid => ?_⟩
    rw [System.proceed_requests] at hreq
    split at hreq
    · cases hreq
      subst j
      exact hown req hj rfl hid
    · obtain ⟨m, hmeets, _, hm⟩ := hlate j req p' hj hreq hid
      exact ⟨m, hmeets, hstore, hm⟩
  cases moved_of_step hstep with
  | arrived q =>
    refine ⟨⟨hsettled, Nat.le_succ_of_le hn, fun j req p hj hreq hid => ?_⟩,
      fun _ _ _ _ _ _ _ => rfl⟩
    rw [System.enter_requests] at hreq
    split at hreq
    · cases hreq
      have herrand : (Request.callback req).errand = .armed id := by
        simp only [Request.errand, hid]
      refine ⟨.armed id, ?_, hsettled, .inl rfl⟩
      rw [← herrand]
      exact (meets_errand cfg (.callback req)).mono (fun _ _ _ => trivial) fun _ _ _ => trivial
    · exact hlate j req p hj hreq hid
  | @answered i c q st k r rows store hwait heff =>
    refine ⟨hproceed (hsettled.run heff) fun req hi hq hid => ?_, fun j req p hj hreq hid hsub => ?_⟩
    · subst hq
      obtain ⟨m, ⟨hmay, hrows, _⟩, hm⟩ := hlate i req _ hi hwait hid
      obtain ⟨rfl, hlost⟩ := run_of_late hm hmay heff
      exact ⟨_, hrows rows trivial, hsettled, .inr hlost⟩
    · cases hsub
      obtain ⟨m, hmeets, hm⟩ := hlate i req p hj hreq hid
      cases hwait.symm.trans hreq
      exact (run_of_late hm hmeets.1 heff).1
  | @refused i c q st k r e hwait heff =>
    refine ⟨hproceed hsettled fun req hi hq hid => ?_, fun _ _ _ _ _ _ _ => rfl⟩
    subst hq
    obtain ⟨m, ⟨_, _, herr⟩, hm⟩ := hlate i req _ hi hwait hid
    exact ⟨_, herr e, hsettled, .inr (rejected_of_late hm)⟩
  | @rejected i q st k r e hwait =>
    refine ⟨hproceed hsettled fun req hi hq hid => ?_, fun _ _ _ _ _ _ _ => rfl⟩
    subst hq
    obtain ⟨m, ⟨_, _, herr⟩, hm⟩ := hlate i req _ hi hwait hid
    exact ⟨_, herr e, hsettled, .inr (rejected_of_late hm)⟩
  | @lost i c q st k r rows store e hwait heff =>
    refine ⟨hproceed (hsettled.run heff) fun req hi hq hid => ?_, fun j req p hj hreq hid hsub => ?_⟩
    · subst hq
      obtain ⟨m, ⟨_, _, herr⟩, hm⟩ := hlate i req _ hi hwait hid
      exact ⟨_, herr e, hsettled.run heff, .inr (rejected_of_late hm)⟩
    · cases hsub
      obtain ⟨m, hmeets, hm⟩ := hlate i req p hj hreq hid
      cases hwait.symm.trans hreq
      exact (run_of_late hm hmeets.1 heff).1
  | @around x store heff =>
    cases heff
    have hchange : (x.change S.store).Settled id := by
      cases x <;> exact ⟨hsettled.issued, hsettled.closed⟩
    refine ⟨⟨hchange, hn, fun j req p hj hreq hid => ?_⟩, fun _ _ _ _ _ _ hsub => by cases hsub⟩
    obtain ⟨m, hmeets, _, hm⟩ := hlate j req p hj hreq hid
    exact ⟨m, hmeets, hchange, hm⟩

end Late

/-- A request's mode is the list of the closing statements that took effect.  The stop
route goes on when its own fails. -/
def closings : Discipline Statement Statement.Rows Failure (List Closer) where
  may _ _ := True
  returns
    | .selectAgent id, (row : Option Agent) => ∀ agent ∈ row, agent.id = id
    | _, _ => True
  returned
    | closed, .closeMessages c, _ => c :: closed
    | closed, _, _ => closed
  rejected
    | closed, .closeMessages (.stopped agentUuid), _ => .stopped agentUuid :: closed
    | closed, _, _ => closed

def Request.closedAll (q : Request) (r : Response) (closed : List Closer) : Prop :=
  r.status = 200 → ∀ c ∈ q.closers, c ∈ closed

section Meets

variable {α : Type} {closed : List Closer}

theorem meets_open {p : Handler α} (h : Only (fun st => ∀ c, st ≠ .closeMessages c) p) :
    p.Meets closings (fun _ closed' => closed' = closed) (fun _ _ => True) closed := by
  refine h.meets (fun st hst => ⟨trivial, fun rows => ?_, fun e => ?_⟩) (fun _ => rfl) fun _ => trivial
  · cases st <;> first | rfl | exact absurd rfl (hst _)
  · cases st <;> first | rfl | exact absurd rfl (hst _)

theorem meets_routine {p : Handler α} (h : Only Routine p) :
    p.Meets closings (fun _ closed' => closed' = closed) (fun _ _ => True) closed :=
  meets_open (h.mono fun st hst c heq => by subst heq; cases hst)

theorem meets_close (c : Closer) :
    (closeMessages c).Meets closings (fun _ closed' => closed' = c :: closed) (fun _ _ => True)
      closed := ⟨trivial, fun _ _ => rfl, fun _ => trivial⟩

theorem meets_failWith {text : String} {p : Handler Response} {cs : List Closer}
    (h : p.Meets closings (fun r closed' => r.status = 200 → ∀ c ∈ cs, c ∈ closed')
      (fun _ _ => True) closed) :
    (failWith text p).Meets closings (fun r closed' => r.status = 200 → ∀ c ∈ cs, c ∈ closed')
      (fun _ _ => True) closed := by
  refine (meets_tryCatch _ _).mpr (h.mono (fun _ _ hr => hr) fun _ _ _ => ?_)
  exact fun hstatus : 500 = 200 => absurd hstatus (by decide)

theorem meets_cancelMessages (user : User) (threadId : Uuid) :
    (cancelMessages user threadId).Meets closings
      (fun r closed' => r.status = 200 → ∀ c ∈ [Closer.cancelled threadId], c ∈ closed')
      (fun _ _ => True) closed := by
  refine meets_failWith (meets_then _ (meets_routine (only_isParticipant threadId user)) ?_)
  rintro allowed closed' rfl
  refine meets_ite (fun _ hstatus => absurd hstatus (by decide)) fun _ => ?_
  refine meets_then _ (meets_close _) ?_
  rintro n closed' rfl _ c hc
  rw [List.mem_singleton] at hc
  rw [hc]
  exact List.mem_cons_self

theorem meets_removals (threadId : Uuid) (remove : List Uuid) :
    (remove.forM (removeParticipant threadId)).Meets closings
      (fun _ closed' => ∀ c, c ∈ closed ∨ c ∈ remove.map (.removed threadId) → c ∈ closed')
      (fun _ _ => True) closed := by
  induction remove generalizing closed with
  | nil => exact fun c hc => by simpa using hc
  | cons agentUuid remove ih =>
    refine meets_then (fun _ closed' => closed' = .removed threadId agentUuid :: closed) ?_ ?_
    · refine meets_then _ (meets_close _) ?_
      rintro n closed' rfl
      exact meets_routine (only_query rfl)
    · rintro _ closed' rfl
      refine ih.mono (fun _ closed' hsub c hc => hsub c ?_) fun _ _ _ => trivial
      simp only [List.map_cons, List.mem_cons] at hc ⊢
      tauto

theorem meets_finishParticipants (threadId : Uuid) (remove : List Uuid) :
    (finishParticipants threadId remove).Meets closings
      (fun r closed' => r.status = 200 → ∀ c ∈ remove.map (Closer.removed threadId), c ∈ closed')
      (fun _ _ => True) closed := by
  refine meets_then _ (meets_removals threadId remove) fun _ closed' hsub => ?_
  refine meets_then _ (meets_routine (only_query rfl)) ?_
  rintro rows closed'' rfl _ c hc
  exact hsub c (.inr hc)

theorem meets_updateParticipants (user : User) (threadId : Uuid) (add : Option (List Uuid))
    (remove : List Uuid) :
    (updateParticipants user threadId add remove).Meets closings
      (fun r closed' => r.status = 200 → ∀ c ∈ remove.map (Closer.removed threadId), c ∈ closed')
      (fun _ _ => True) closed := by
  refine meets_failWith (meets_then _ (meets_routine (only_isThreadOwner _ _ _)) ?_)
  rintro allowed closed' rfl
  refine meets_ite (fun _ hstatus => absurd hstatus (by decide)) fun _ => ?_
  split
  · exact meets_finishParticipants threadId remove
  · refine meets_then _ (meets_open (only_query fun _ => nofun)) ?_
    rintro agents closed' rfl
    refine meets_ite (fun _ hstatus => absurd hstatus (by decide)) fun _ => ?_
    refine meets_then _ (meets_routine (only_deniedUuid _ _)) ?_
    rintro denied closed' rfl
    split
    · exact fun hstatus : 403 = 200 => absurd hstatus (by decide)
    · have hadd := only_addParticipants (A := fun st => ∀ c, st ≠ .closeMessages c)
        (fun _ _ _ => nofun) (fun st hst c heq => by subst heq; cases hst) threadId
      refine meets_then _ (meets_open (hadd _)) ?_
      rintro _ closed' rfl
      exact meets_finishParticipants threadId remove

theorem meets_stopAgent (cfg : Config) (agentUuid : Uuid) :
    (stopAgent cfg agentUuid).Meets closings
      (fun r closed' => r.status = 200 → ∀ c ∈ [Closer.stopped agentUuid], c ∈ closed')
      (fun _ _ => True) closed := by
  refine meets_failWith (meets_ask trivial (fun (row : Option Agent) hrow => ?_) fun _ => trivial)
  cases row with
  | none => exact fun hstatus => absurd hstatus (by decide)
  | some agent =>
    have hid : agent.id = agentUuid := hrow agent rfl
    have hquiet : ∀ {p : Handler Unit} {l : List Closer}, Only Routine p →
        (quietly p).Meets closings (fun _ l' => l' = l) (fun _ _ => True) l :=
      fun hp => meets_routine (only_quietly hp)
    refine meets_then _ (meets_routine (only_revokeFailed _ _ _)) ?_
    rintro _ closed' rfl
    refine meets_then _ (meets_routine (only_revokeFailed _ _ _)) ?_
    rintro _ closed' rfl
    refine meets_then _ (meets_routine (only_removeContainer _)) ?_
    rintro _ closed' rfl
    refine meets_then (fun _ l => .stopped agent.id ∈ l) ⟨trivial, fun _ _ => ?_, fun _ => ?_⟩ ?_
    · exact List.mem_cons_self
    · exact List.mem_cons_self
    · intro _ l hl
      refine meets_then _ (hquiet (only_query rfl)) ?_
      rintro _ _ rfl
      refine meets_then _ (meets_routine (only_query rfl)) ?_
      rintro _ _ rfl
      refine meets_then _ (hquiet (only_query rfl)) ?_
      rintro _ _ rfl _ c hc
      rw [List.mem_singleton] at hc
      rw [hc, ← hid]
      exact hl

theorem meets_closings (cfg : Config) {q : Request} (h : q.closers ≠ []) :
    (q.handler cfg).Meets closings q.closedAll (fun _ _ => True) [] := by
  cases q with
  | cancel user threadId => exact meets_cancelMessages user threadId
  | updateParticipants user threadId add remove =>
    exact meets_updateParticipants user threadId add remove
  | stopAgent agentUuid => exact meets_stopAgent cfg agentUuid
  | _ => exact absurd rfl h

end Meets

section InScope

variable {s s' : Store} {m₀ : Message} {closed : List Closer}

/-- The message of `m₀`'s id, where it exists, has `m₀`'s thread and author. -/
structure InPlace (m₀ : Message) (s : Store) : Prop where
  issued : m₀.id < s.nextId
  same : ∀ m, s.message? m₀.id = some m → m.threadId = m₀.threadId ∧
    m.authorId = m₀.authorId ∧ m.authorType = m₀.authorType ∧ m.status ≠ .stale

theorem InPlace.run (h : InPlace m₀ s) {c : Choice} {st : Statement} {rows : st.Rows}
    (hrun : st.run s c = .ok (rows, s')) : InPlace m₀ s' := by
  refine ⟨Nat.lt_of_lt_of_le h.issued (frame_of_run hrun).nextId, fun m hm => ?_⟩
  have hkey : m.id = m₀.id := Table.key_of_get? hm
  have hget : ∀ m' ∈ s.messages.rows, m'.id = m₀.id → s.message? m₀.id = some m' := by
    intro m' hm' hkey'
    rw [← hkey']
    exact Table.mem_iff_get?.mp hm'
  obtain hold | ⟨m', hm', hrewritten⟩ | ⟨_, hle, _⟩ :=
    (effect_of_run hrun).origin (Table.mem_of_get? hm)
  · exact h.same m (hget m hold hkey)
  · obtain ⟨hthread, hauthor, htype, hstale⟩ :=
      h.same m' (hget m' hm' (hrewritten.id_eq.symm.trans hkey))
    rw [hrewritten.threadId_eq, hrewritten.author_eq.1, hrewritten.author_eq.2]
    exact ⟨hthread, hauthor, htype, hrewritten.not_stale hstale⟩
  · rw [hkey] at hle
    exact absurd h.issued (Nat.not_lt_of_le hle)

theorem scope_of_inPlace (h : InPlace m₀ s) (c : Closer) {m : Message}
    (hm : s.message? m₀.id = some m) : c.scope m = c.scope m₀ := by
  have hkey : m.id = m₀.id := Table.key_of_get? hm
  obtain ⟨hthread, hauthor, htype, _⟩ := h.same m hm
  cases c <;> simp only [Closer.scope, hkey, hthread, hauthor, htype]

/-- A closing statement settles a message of its scope that nobody is answering. -/
theorem settled_of_close (h : InPlace m₀ s) (hagent : m₀.authorType = .agent) {c : Closer}
    (hc : c ≠ .swept) (hscope : c.scope m₀ = true)
    (hquiet : ∀ m ∈ s.messages.rows, c.scope m = true → m.authorType = .agent →
      m.status ≠ .thinking) : (s.close c).2.Settled m₀.id := by
  refine ⟨h.issued, fun m hm => ?_⟩
  obtain ⟨m', hm', ⟨hnot, rfl⟩ | ⟨_, i, _, _, rfl⟩⟩ :=
    Table.mem_patchRows (f := c.close s.now) (Table.mem_of_get? hm)
  · have hkey : m.id = m₀.id := Table.key_of_get? hm
    have hget : s.message? m₀.id = some m := hkey ▸ Table.mem_iff_get?.mp hm'
    have hin : c.scope m = true := (scope_of_inPlace h c hget).trans hscope
    have hthinking := hquiet m hm' hin ((h.same m hget).2.2.1.trans hagent)
    have hpending : m.status ≠ .pending := by
      intro hpending
      cases c <;> simp_all [Closer.selects, Closer.scope]
    cases hstatus : m.status <;> simp_all [Status.isOpen]
  · rfl

/-- The message is in place, and settled once a closing statement of its scope took effect. -/
def Tidied (m₀ : Message) (s : Store) (closed : List Closer) : Prop :=
  InPlace m₀ s ∧ ∀ c ∈ closed, c ≠ .swept → c.scope m₀ = true → s.Settled m₀.id

theorem Tidied.run (h : Tidied m₀ s closed) {c : Choice} {st : Statement} {rows : st.Rows}
    (hrun : st.run s c = .ok (rows, s')) : Tidied m₀ s' closed :=
  ⟨h.1.run hrun, fun c hc hne hscope => (h.2 c hc hne hscope).run hrun⟩

theorem Tidied.close (h : Tidied m₀ s closed) (hagent : m₀.authorType = .agent) {c : Closer}
    (hquiet : ∀ m ∈ s.messages.rows, c.scope m = true → m.authorType = .agent →
      m.status ≠ .thinking) : Tidied m₀ (s.close c).2 (c :: closed) := by
  have hrun : ∀ ch : Choice, Statement.run s ch (.closeMessages c) = .ok (s.close c) := fun _ => rfl
  have hafter := h.run (hrun {})
  refine ⟨hafter.1, fun c' hc' hne hscope => ?_⟩
  obtain rfl | hold := List.mem_cons.mp hc'
  · exact settled_of_close h.1 hagent hne hscope hquiet
  · exact hafter.2 c' hold hne hscope

theorem tracks_closings (cfg : Config) (hagent : m₀.authorType = .agent) (i : ℕ) (q : Request) :
    (service cfg).Tracks closings (ClosesCleanly i) i q (Tidied m₀) where
  others s c st rows s' closed h hrun := h.run hrun
  around s x s' closed h hx := by
    cases hx
    cases x <;> exact ⟨⟨h.1.issued, h.1.same⟩, fun c hc hne hscope =>
      ⟨(h.2 c hc hne hscope).issued, (h.2 c hc hne hscope).closed⟩⟩
  answer S ch st k r rows s' closed hok hwait hmay h hrun := by
    have hafter : Tidied m₀ s' closed := h.run hrun
    cases st
    case closeMessages c =>
      cases hrun
      exact ⟨trivial, h.close hagent (hok q c k r hwait rfl).2⟩
    case selectAgent id =>
      refine ⟨?_, hafter⟩
      cases hrun
      intro agent hrow
      exact Table.key_of_get? hrow
    all_goals exact ⟨trivial, hafter⟩
  refuse S ch st k r e closed hok hwait hmay h hrun := by
    cases st
    case closeMessages c => cases hrun
    all_goals exact h
  reject S st k r e closed hok hwait hmay h := by
    cases st
    case closeMessages c =>
      cases c
      case stopped agentUuid =>
        exact absurd rfl ((hok q _ k r hwait rfl).1 agentUuid rfl e)
      all_goals exact h
    all_goals exact h
  lose S ch st k r rows s' e closed hok hwait hmay h hrun := by
    have hafter : Tidied m₀ s' closed := h.run hrun
    cases st
    case closeMessages c =>
      cases c
      case stopped agentUuid =>
        cases hrun
        exact h.close hagent (hok q _ k r hwait rfl).2
      all_goals exact hafter
    all_goals exact hafter

end InScope

section Runs

variable {cfg : Config} {S S₁ T : State} {moves : List ChatMove} {q : Request} {r : Response}
  {m : Message}

theorem not_swept_of_closers {c : Closer} (hc : c ∈ q.closers) : c ≠ .swept := by
  rintro rfl
  cases q <;> simp [Request.closers] at hc

theorem not_stale_of_reachable (hS : (server cfg).Reachable S) :
    ∀ m ∈ S.store.messages.rows, m.status ≠ .stale := by
  refine store_invariant (I := fun s => ∀ m ∈ s.messages.rows, m.status ≠ .stale) hS ?_ ?_ ?_
  · rintro s ⟨hmessages, _⟩ m hm
    rw [hmessages] at hm
    cases hm
  · intro s c st rows s' h hrun m hm
    obtain hold | ⟨m', hm', hrewritten⟩ | ⟨hcreated, _⟩ := (effect_of_run hrun).origin hm
    · exact h m hold
    · exact hrewritten.not_stale (h m' hm')
    · exact hcreated.not_stale
  · intro s x s' h hx
    cases hx
    cases x <;> exact h

/-- A settled message is closed for good in every run. -/
theorem closedForGood_of_settled (hT : (server cfg).Reachable T) {id : Uuid}
    (h : T.store.Settled id) : ClosedForGood cfg T id := by
  refine ⟨fun m hm => ?_, fun U V moves a j req p hrun hj hreq hid hsub hstep => ?_⟩
  · have hclosed := h.closed m hm
    have hstale := not_stale_of_reachable hT m (Table.mem_of_get? hm)
    cases hstatus : m.status <;> simp_all [Status.isOpen, Status.isTerminal]
  · have hlate : LateCallbacks id T.arrivals T := by
      obtain ⟨modes, hfollows, _⟩ := (keeps_errands cfg).reachable hT
      refine ⟨h, Nat.le_refl _, fun j req p hj hreq _ => ?_⟩
      rw [hfollows.later j hj] at hreq
      cases hreq
    have hU : LateCallbacks id T.arrivals U :=
      hrun.invariant hlate fun _ _ _ hinv _ hstep => (hinv.step hstep).1
    exact (hU.step hstep).2 j req p hj hreq hid hsub

/-- A cancel, a removal or a stop that reports success after running its closing
statements cleanly has closed for good every open agent message in its scope. -/
theorem closing_effective (hS : (server cfg).Reachable S)
    (harrive : (server cfg).step S (.arrive q) = some S₁)
    (hrun : (server cfg).RunIf (ClosesCleanly S.arrivals) S₁ moves T)
    (hdone : T.requests S.arrivals = some (q, .reply r)) (hr : r.status = 200)
    (hm : m ∈ S.store.messages.rows) (hagent : m.authorType = .agent)
    (hopen : m.status.isOpen = true) (hscope : ∃ c ∈ q.closers, c.scope m = true) :
    ClosedForGood cfg T m.id := by
  obtain ⟨c, hc, hscope⟩ := hscope
  have hT : (server cfg).Reachable T :=
    hS.trans ((Machine.RunIf.single trivial harrive).append hrun.run)
  cases harrive
  have hplace : InPlace m S.store := by
    refine ⟨((issued_of_reachable hS).messages m hm).1, fun m' hm' => ?_⟩
    cases (Table.mem_iff_get?.mp hm).symm.trans hm'
    refine ⟨rfl, rfl, rfl, fun hstale => ?_⟩
    rw [hstale] at hopen
    cases hopen
  have hstart : Tracked closings S.arrivals q q.closedAll (Tidied m) (S.enter q (q.handler cfg)) := by
    refine ⟨q.handler cfg, [], ?_, meets_closings cfg (List.ne_nil_of_mem hc), hplace, ?_⟩
    · rw [System.enter_requests, if_pos rfl]
    · intro c hc
      cases hc
  obtain ⟨p, closed, hp, hmeets, htidied⟩ :=
    (tracks_closings cfg hagent S.arrivals q).run hstart (Nat.lt_succ_self _) hrun
  cases hp.symm.trans hdone
  exact closedForGood_of_settled hT
    (htidied.2 c (hmeets hr c hc) (not_swept_of_closers hc) hscope)

theorem closesCleanly_of_idle {i : ℕ} {a : ChatMove} (ha : ∀ e, a ≠ .reject i e)
    (hidle : ∀ m ∈ S.store.messages.rows, m.status ≠ .thinking) : ClosesCleanly i S a :=
  fun _ _ _ _ _ _ => ⟨fun _ _ e => ha e, fun m hm _ _ => hidle m hm⟩

/-- The user cancels the thread before `ann` has begun to answer. -/
theorem closing_effective_sample :
    ∃ (moves : List ChatMove) (m : Message), m.status = .pending ∧
      m ∈ (Sample.after moves).store.messages.rows ∧
      ∃ moves', ClosedForGood Sample.config (Sample.after (moves ++ moves')) m.id := by
  let moves := Sample.serve 0 (Sample.openThread [1]) 4
  let arrived := moves ++ [.arrive (Request.cancel Sample.user 10)]
  let asked := arrived ++ [.resume 1 {}]
  let closed := asked ++ [.resume 1 {}]
  let m : Message :=
    { id := 12, seq := 2, threadId := 10, authorId := 1, authorType := .agent, role := .assistant
      content := "", status := .pending, replyTo := some 11, createdAt := 0, updatedAt := 0 }
  have hm : m ∈ (Sample.after moves).store.messages.rows := by decide +kernel
  have harrive : (server Sample.config).step (Sample.after moves)
      (.arrive (Request.cancel Sample.user 10)) = some (Sample.after arrived) :=
    Sample.step (by decide +kernel)
  have hask : (server Sample.config).step (Sample.after arrived) (.resume 1 {}) =
      some (Sample.after asked) := Sample.step (by decide +kernel)
  have hclose : (server Sample.config).step (Sample.after asked) (.resume 1 {}) =
      some (Sample.after closed) := Sample.step (by decide +kernel)
  have hrun : (server Sample.config).RunIf (ClosesCleanly 1) (Sample.after arrived)
      [.resume 1 {}, .resume 1 {}] (Sample.after closed) := by
    refine .cons (closesCleanly_of_idle (by simp) (by decide +kernel)) hask ?_
    exact .single (closesCleanly_of_idle (by simp) (by decide +kernel)) hclose
  refine ⟨moves, m, rfl, hm,
    [.arrive (Request.cancel Sample.user 10), .resume 1 {}, .resume 1 {}], ?_⟩
  exact closing_effective (T := Sample.after closed) (r := ⟨200, .cancelled 1⟩)
    (Sample.reachable (by decide +kernel)) harrive hrun rfl rfl hm rfl rfl
    ⟨.cancelled 10, List.mem_singleton_self _, rfl⟩

/-- The user cancels the thread while `ann` is thinking, and she answers all the same. -/
theorem cancel_misses_thinking :
    ¬ ∀ (S S₁ T : State) (moves : List ChatMove) (q : Request) (r : Response) (m : Message),
      (server Sample.config).Reachable S → (server Sample.config).step S (.arrive q) = some S₁ →
      (server Sample.config).Run S₁ moves T →
      T.requests S.arrivals = some (q, .reply r) → r.status = 200 →
      m ∈ S.store.messages.rows → m.authorType = .agent → m.status.isOpen = true →
      (∃ c ∈ q.closers, c.scope m = true) → ClosedForGood Sample.config T m.id := by
  intro hall
  let moves := Sample.serve 0 (Sample.openThread [1]) 4 ++
    Sample.serve 1 (Sample.callback 12 "thinking" "reading") 2
  let arrived := moves ++ [.arrive (Request.cancel Sample.user 10)]
  let closed := arrived ++ [.resume 2 {}, .resume 2 {}]
  let m : Message :=
    { id := 12, seq := 3, threadId := 10, authorId := 1, authorType := .agent, role := .assistant
      content := "reading", status := .thinking, replyTo := some 11, createdAt := 0, updatedAt := 0 }
  have hm : m ∈ (Sample.after moves).store.messages.rows := by decide +kernel
  have harrive : (server Sample.config).step (Sample.after moves)
      (.arrive (Request.cancel Sample.user 10)) = some (Sample.after arrived) :=
    Sample.step (by decide +kernel)
  have hrun : (server Sample.config).Run (Sample.after arrived) [.resume 2 {}, .resume 2 {}]
      (Sample.after closed) := Sample.run (by decide +kernel)
  have hgood : ClosedForGood Sample.config (Sample.after closed) 12 := by
    apply hall _ _ _ _ _ ⟨200, .cancelled 0⟩ m (Sample.reachable (by decide +kernel)) harrive hrun
    · rfl
    · rfl
    · exact hm
    · rfl
    · rfl
    · exact ⟨.cancelled 10, List.mem_singleton_self _, rfl⟩
  have hstill : (Sample.after closed).store.message? 12 = some m := by decide +kernel
  have hterminal := hgood.1 m hstill
  cases hterminal

end Runs

end Hill90.Chat
