import Hill90.Chat.Conduct
import Hill90.Chat.Effect

/-! # Finality of a message

Every UPDATE that changes the status, the content or the error message of a row asks
for an open row, so a closed message keeps all three.  A callback starts out armed
with its message; its guarded UPDATE makes it win or lose, and since winning closes the
message no second callback wins.
-/

namespace Hill90.Chat

open Program Service

section Settled

variable {s s' : Store} {id : Uuid}

/-- The id was issued, and its message is closed or gone. -/
structure Store.Settled (s : Store) (id : Uuid) : Prop where
  issued : id < s.nextId
  closed : ∀ m, s.message? id = some m → m.status.isOpen = false

structure Store.Reads (s : Store) (id : Uuid) (m : Message) : Prop where
  issued : id < s.nextId
  same : ∀ m', s.message? id = some m' →
    m'.status = m.status ∧ m'.content = m.content ∧ m'.errorMessage = m.errorMessage

theorem Store.Reads.settled {m : Message} (h : s.Reads id m) (hm : m.status.isOpen = false) :
    s.Settled id where
  issued := h.issued
  closed m' hm' := by
    rw [(h.same m' hm').1]
    exact hm

theorem Store.Reads.run {m : Message} (h : s.Reads id m) (hm : m.status.isOpen = false)
    {c : Choice} {st : Statement} {rows : st.Rows} (hrun : st.run s c = .ok (rows, s')) :
    s'.Reads id m := by
  have hnext := (frame_of_run hrun).nextId
  refine ⟨Nat.lt_of_lt_of_le h.issued hnext, fun m' hm' => ?_⟩
  have hkey : m'.id = id := Table.key_of_get? hm'
  have hget : ∀ m₀ ∈ s.messages.rows, m₀.id = id → s.message? id = some m₀ := by
    intro m₀ hm₀ hkey₀
    rw [← hkey₀]
    exact Table.mem_iff_get?.mp hm₀
  obtain hold | ⟨m₀, hm₀, hrewritten⟩ | ⟨_, hle, _⟩ :=
    (effect_of_run hrun).origin (Table.mem_of_get? hm')
  · exact h.same m' (hget m' hold hkey)
  · have hsame := h.same m₀ (hget m₀ hm₀ (hrewritten.id_eq.symm.trans hkey))
    obtain ⟨hstatus, hcontent, herror⟩ := hrewritten.of_closed (by rw [hsame.1]; exact hm)
    exact ⟨hstatus.trans hsame.1, hcontent.trans hsame.2.1, herror.trans hsame.2.2⟩
  · rw [hkey] at hle
    exact absurd h.issued (Nat.not_lt_of_le hle)

theorem Store.Settled.run (h : s.Settled id) {c : Choice} {st : Statement} {rows : st.Rows}
    (hrun : st.run s c = .ok (rows, s')) : s'.Settled id := by
  cases hget : s.message? id with
  | some m =>
    have hreads : s.Reads id m := ⟨h.issued, fun m' hm' => by
      cases hget.symm.trans hm'
      exact ⟨rfl, rfl, rfl⟩⟩
    exact (hreads.run (h.closed m hget) hrun).settled (h.closed m hget)
  | none =>
    refine ⟨Nat.lt_of_lt_of_le h.issued (frame_of_run hrun).nextId, fun m' hm' => ?_⟩
    have hnone : ∀ m₀ ∈ s.messages.rows, m₀.id ≠ id := Table.get?_eq_none_iff.mp hget
    have hkey : m'.id = id := Table.key_of_get? hm'
    obtain hold | ⟨m₀, hm₀, hrewritten⟩ | ⟨_, hle, _⟩ :=
      (effect_of_run hrun).origin (Table.mem_of_get? hm')
    · exact absurd hkey (hnone m' hold)
    · exact absurd (hrewritten.id_eq.symm.trans hkey) (hnone m₀ hm₀)
    · rw [hkey] at hle
      exact absurd h.issued (Nat.not_lt_of_le hle)

theorem finalStatus_isOpen (b : CallbackBody) : b.finalStatus.isOpen = false := by
  unfold CallbackBody.finalStatus
  split <;> rfl

/-- The guarded UPDATE of a final callback that matches a row finds the message open. -/
theorem exists_open_of_finish {b : CallbackBody} (h : (s.finish id b).1 ≠ 0) :
    ∃ m, s.message? id = some m ∧ m.status.isOpen = true := by
  have hpos : 0 < s.messages.rows.countP fun m => m.id = id && m.status.isOpen :=
    Nat.pos_of_ne_zero h
  obtain ⟨m, hm, hp⟩ := List.countP_pos_iff.mp hpos
  simp only [Bool.and_eq_true, decide_eq_true_eq] at hp
  exact ⟨m, by rw [← hp.1]; exact Table.mem_iff_get?.mp hm, hp.2⟩

theorem settled_of_finish (hs : s.Issued) {b : CallbackBody} (h : (s.finish id b).1 ≠ 0) :
    (s.finish id b).2.Settled id := by
  obtain ⟨m, hm, _⟩ := exists_open_of_finish h
  have hkey : m.id = id := Table.key_of_get? hm
  refine ⟨hkey ▸ (hs.messages m (Table.mem_of_get? hm)).1, fun m' hm' => ?_⟩
  obtain ⟨m₀, hm₀, ⟨hnot, rfl⟩ | ⟨_, i, _, _, rfl⟩⟩ :=
    Table.mem_patchRows (f := b.finish s.now) (Table.mem_of_get? hm')
  · have hkey' : m'.id = id := Table.key_of_get? hm'
    simpa [hkey'] using hnot
  · exact finalStatus_isOpen b

end Settled

/-- What a request has to do with the answer of a message. -/
inductive Errand where
  | other
  | armed (id : Uuid)
  | won (id : Uuid)
  | lost (id : Uuid)

def errands : Discipline Statement Statement.Rows Failure Errand where
  may
    | .other, s => Mundane s
    | .armed id, s => s.answers = some id
    | .won id, s => DecidedBy id s
    | .lost id, s => s = .selectStatus id
  returns _ _ := True
  returned
    | .armed id, .thinkMessage _ _, (rows : ℕ) => if rows = 0 then .lost id else .other
    | .armed id, .finishMessage _ _, (rows : ℕ) => if rows = 0 then .lost id else .won id
    | m, _, _ => m
  rejected
    | .armed id, _, _ => .lost id
    | m, _, _ => m

def Request.errand : Request → Errand
  | callback req =>
    match req.body.messageId with
    | some id => .armed id
    | none => .other
  | _ => .other

/-- Only the winner of a message tells its agent that the message was updated for good. -/
def Request.answered (q : Request) (r : Response) (m : Errand) : Prop :=
  ∀ req id, q = callback req → req.body.isThinking = false → req.body.messageId = some id →
    r = ⟨200, .updated true⟩ → m = .won id

section Meets

variable {α : Type}

theorem meets_other {p : Handler α} (h : Only Mundane p) {Q : α → Errand → Prop}
    (hQ : ∀ a, Q a .other) : p.Meets errands Q (fun _ _ => True) .other :=
  h.meets (fun _ hs => ⟨hs, fun _ => rfl, fun _ => rfl⟩) hQ fun _ => trivial

theorem meets_won {id : Uuid} {p : Handler α} (h : Only (DecidedBy id) p) {Q : α → Errand → Prop}
    (hQ : ∀ a, Q a (.won id)) : p.Meets errands Q (fun _ _ => True) (.won id) :=
  h.meets (fun _ hs => ⟨hs, fun _ => rfl, fun _ => rfl⟩) hQ fun _ => trivial

theorem meets_notUpdated (id : Uuid) :
    (notUpdated id).Meets errands (fun r _ => r ≠ ⟨200, .updated true⟩) (fun _ _ => True)
      (.lost id) := by
  refine meets_ask rfl (fun (status : Option Status) _ => ?_) fun _ => trivial
  cases status with
  | none => simp
  | some status => simp

theorem meets_thinkingCallback (id : Uuid) (b : CallbackBody) :
    (thinkingCallback id b).Meets errands (fun _ _ => True) (fun _ _ => True) (.armed id) := by
  refine meets_ask rfl (fun (rowCount : ℕ) _ => ?_) fun _ => trivial
  refine meets_ite (fun hzero => ?_) fun hzero => ?_
  · have hlost : errands.returned (.armed id) (.thinkMessage id b) rowCount = .lost id := if_pos hzero
    rw [hlost]
    exact (meets_notUpdated id).mono (fun _ _ _ => trivial) fun _ _ _ => trivial
  · have hother : errands.returned (.armed id) (.thinkMessage id b) rowCount = .other := if_neg hzero
    rw [hother]
    exact meets_other (only_bind (only_query ⟨rfl, rfl⟩) fun _ => only_pure _) fun _ => trivial

theorem meets_finalCallback (cfg : Config) (id : Uuid) (b : CallbackBody) :
    (finalCallback cfg id b).Meets errands
      (fun r m => r = ⟨200, .updated true⟩ → m = .won id) (fun _ _ => True) (.armed id) := by
  refine meets_ask rfl (fun (rowCount : ℕ) _ => ?_) fun _ => trivial
  refine meets_ite (fun hzero => ?_) fun hzero => ?_
  · have hlost : errands.returned (.armed id) (.finishMessage id b) rowCount = .lost id := if_pos hzero
    rw [hlost]
    exact (meets_notUpdated id).mono (fun _ _ hne heq => absurd heq hne) fun _ _ _ => trivial
  · have hwon : errands.returned (.armed id) (.finishMessage id b) rowCount = .won id := if_neg hzero
    rw [hwon]
    refine meets_won ?_ fun _ _ => rfl
    exact only_bind (only_query ⟨rfl, .inl rfl⟩) fun _ =>
      only_bind ((only_journal cfg id b).mono fun _ => .of_journal) fun _ =>
      only_bind ((only_completeBatch id).mono fun _ h => .of_mundane (.of_batching h)) fun _ =>
        only_bind ((only_tagElevated id).mono fun _ => .of_routine) fun _ =>
          only_bind ((only_orchestrate cfg id b).mono fun _ => .of_orchestrating) fun _ => only_pure _

theorem meets_errand (cfg : Config) (q : Request) :
    (q.handler cfg).Meets errands q.answered (fun _ _ => True) q.errand := by
  by_cases hpassive : q.isPassive = true
  · have hother : q.errand = .other := by
      cases q <;> first | rfl | cases hpassive
    rw [hother]
    refine meets_other ((only_passive cfg hpassive).mono fun _ => .of_passive) fun r req id hq => ?_
    subst hq
    cases hpassive
  · cases q with
    | createThread req =>
      exact meets_other ((only_createThread cfg req).mono fun _ => .of_sending) fun _ _ _ hq => nomatch hq
    | sendMessage req => exact meets_other ((only_sendMessage cfg req).mono fun _ h =>
        .of_sending (.of_posting h)) fun _ _ _ hq => nomatch hq
    | callback req =>
      have hrefused : ∀ (r : Response) (m : Errand), r ≠ ⟨200, .updated true⟩ →
          (pure r : Handler Response).Meets errands (Request.callback req).answered
            (fun _ _ => True) m :=
        fun r m hne _ _ _ _ _ heq => absurd heq hne
      simp only [Request.handler, chatCallbackHandler]
      split
      · exact hrefused _ _ (by simp)
      · split
        · exact hrefused _ _ (by simp)
        · split
          · exact hrefused _ _ (by simp)
          · rename_i id hid
            have harmed : (Request.callback req).errand = .armed id := by
              simp only [Request.errand, hid]
            rw [harmed]
            split
            · exact hrefused _ _ (by simp)
            · split
              · rename_i hthinking
                refine (meets_thinkingCallback id req.body).mono ?_ fun _ _ _ => trivial
                intro r m _ req' id' hq hfinal
                cases hq
                rw [hthinking] at hfinal
                cases hfinal
              · refine (meets_finalCallback cfg id req.body).mono ?_ fun _ _ _ => trivial
                intro r m hwon req' id' hq _ hid' hr
                cases hq
                cases hid.symm.trans hid'
                exact hwon hr
    | _ => exact absurd rfl hpassive

end Meets

section Keeps

structure Decided (s : Store) (modes : ℕ → Option Errand) : Prop where
  issued : s.Issued
  unique : ∀ i j id, modes i = some (.won id) → modes j = some (.won id) → i = j
  settled : ∀ i id, modes i = some (.won id) → s.Settled id

variable {s s' : Store} {modes : ℕ → Option Errand} {i : ℕ} {m m' : Errand}

theorem Decided.store (h : Decided s modes) (hissued : s'.Issued)
    (hsettled : ∀ id, s.Settled id → s'.Settled id) : Decided s' modes :=
  ⟨hissued, h.unique, fun i id hi => hsettled id (h.settled i id hi)⟩

theorem Decided.keep (h : Decided s modes)
    (hm : ∀ id, m' = .won id → modes i = some (.won id)) :
    Decided s (Function.update modes i (some m')) := by
  have hold : ∀ j id, Function.update modes i (some m') j = some (.won id) →
      modes j = some (.won id) := by
    intro j id hj
    obtain ⟨rfl, heq⟩ | ⟨_, hj⟩ := update_eq_some hj
    · exact hm id heq
    · exact hj
  exact ⟨h.issued, fun j k id hj hk => h.unique j k id (hold j id hj) (hold k id hk),
    fun j id hj => h.settled j id (hold j id hj)⟩

theorem Decided.win (h : Decided s modes) {id : Uuid} (hnobody : ∀ j, modes j ≠ some (.won id))
    (hsettled : s.Settled id) : Decided s (Function.update modes i (some (.won id))) := by
  refine ⟨h.issued, fun j k id' hj hk => ?_, fun j id' hj => ?_⟩
  · obtain ⟨hji, heq⟩ | ⟨_, hj⟩ := update_eq_some hj
    · cases heq
      obtain ⟨hki, _⟩ | ⟨_, hk⟩ := update_eq_some hk
      · exact hji.trans hki.symm
      · exact absurd hk (hnobody k)
    · obtain ⟨_, heq⟩ | ⟨_, hk⟩ := update_eq_some hk
      · cases heq
        exact absurd hj (hnobody j)
      · exact h.unique j k id' hj hk
  · obtain ⟨_, heq⟩ | ⟨_, hj⟩ := update_eq_some hj
    · cases heq
      exact hsettled
    · exact h.settled j id' hj

theorem Decided.run (h : Decided s modes) {c : Choice} {st : Statement} {rows : st.Rows}
    (hrun : st.run s c = .ok (rows, s')) : Decided s' modes :=
  h.store (h.issued.run hrun) fun _ hid => hid.run hrun

/-- A statement makes its request win only if it finds the message open and closes it. -/
theorem returned_won {c : Choice} {st : Statement} {rows : st.Rows} {id : Uuid}
    (hmay : errands.may m st) (hrun : st.run s c = .ok (rows, s'))
    (hwon : errands.returned m st rows = .won id) :
    m = .won id ∨ ∃ b, s' = (s.finish id b).2 ∧ (s.finish id b).1 ≠ 0 := by
  cases m with
  | other => cases hwon
  | won id' => exact .inl hwon
  | lost id' => cases hwon
  | armed id' =>
    right
    cases st
    case thinkMessage id'' b =>
      simp only [errands] at hwon
      split at hwon <;> cases hwon
    case finishMessage id'' b =>
      simp only [errands] at hwon
      split at hwon
      · cases hwon
      · rename_i hne
        cases hwon
        cases hmay
        cases hrun
        exact ⟨b, rfl, hne⟩
    all_goals cases hwon

theorem keeps_errands (cfg : Config) :
    (service cfg).Keeps errands Request.errand Request.answered Decided where
  handler q := meets_errand cfg q
  fresh s hs := by
    obtain ⟨hmessages, hthreads, hparticipants⟩ := hs
    refine ⟨⟨?_, ?_, ?_⟩, fun _ _ _ h => (nomatch h), fun _ _ h => (nomatch h)⟩
    · simp [hthreads]
    · simp [hparticipants]
    · simp [hmessages]
  arrive s modes i q h _ := by
    refine h.keep fun id hid => ?_
    cases q <;> try cases hid
    case callback req =>
      simp only [Request.errand] at hid
      split at hid <;> cases hid
  answer s modes i m c st rows s' h hm hmay hrun := by
    refine ⟨trivial, ?_⟩
    by_cases hwon : ∃ id, errands.returned m st rows = .won id
    · obtain ⟨id, hwon⟩ := hwon
      obtain rfl | ⟨b, rfl, hne⟩ := returned_won hmay hrun hwon
      · exact (h.run hrun).keep fun _ hid => by rw [hm, ← hid, hwon]
      · rw [hwon]
        obtain ⟨m, hget, hopen⟩ := exists_open_of_finish hne
        have hnobody : ∀ j, modes j ≠ some (.won id) := by
          intro j hj
          rw [(h.settled j id hj).closed m hget] at hopen
          cases hopen
        exact (h.run hrun).win hnobody (settled_of_finish h.issued hne)
    · exact (h.run hrun).keep fun id hid => absurd ⟨id, hid⟩ hwon
  fail s modes i m st e h hm hmay := by
    refine h.keep fun id hid => ?_
    cases m with
    | won id' => exact hid ▸ hm
    | _ => cases hid
  lose s modes i m c st rows s' e h hm hmay hrun := by
    refine (h.run hrun).keep fun id hid => ?_
    cases m with
    | won id' => exact hid ▸ hm
    | _ => cases hid
  around s modes x s' h hx := by
    cases hx
    refine h.store (h.issued.change x) fun id hid => ?_
    cases x <;> exact ⟨hid.issued, hid.closed⟩

end Keeps

section Runs

variable {cfg : Config} {S T : State} {moves : List ChatMove}

theorem issued_of_reachable (hS : (server cfg).Reachable S) : S.store.Issued := by
  obtain ⟨modes, _, hdecided⟩ := (keeps_errands cfg).reachable hS
  exact hdecided.issued

theorem reads_of_run (hS : (server cfg).Reachable S) (hrun : (server cfg).Run S moves T)
    {id : Uuid} {m : Message} (hm : S.store.message? id = some m)
    (hclosed : m.status.isOpen = false) : T.store.Reads id m := by
  have hreads : S.store.Reads id m := by
    have hissued := (issued_of_reachable hS).messages m (Table.mem_of_get? hm)
    have hkey : m.id = id := Table.key_of_get? hm
    refine ⟨hkey ▸ hissued.1, fun m' hm' => ?_⟩
    cases hm.symm.trans hm'
    exact ⟨rfl, rfl, rfl⟩
  refine store_relates (R := fun s t => s.Reads id m → t.Reads id m) hrun (fun _ h => h)
    (fun _ _ _ hst htu h => htu (hst h)) (fun s c st rows s' hst h => h.run hclosed hst)
    (fun s x s' hx h => ?_) hreads
  cases hx
  cases x <;> exact ⟨h.issued, h.same⟩

theorem won_of_finalWork {modes : ℕ → Option Errand} {i : ℕ} {q : Request} {st : Statement}
    {k : st.Rows → Handler Response} {r : Failure → Handler Response} {id : Uuid}
    (hfollows : Follows errands Request.answered S modes)
    (hwait : S.requests i = some (q, .await st k r)) (hwork : st.finalWork = some id) :
    modes i = some (.won id) := by
  obtain ⟨m, hm, hmay, _⟩ := hfollows.waiting hwait
  rw [hm]
  cases m with
  | other => exact absurd (hwork.symm.trans hmay.2) (by simp)
  | armed id' =>
    have hanswers : st.answers = some id' := hmay
    have hnot : st.answers = none ∨ st.finalWork = none := by
      cases st <;> simp [Statement.answers, Statement.finalWork]
    simp [hanswers, hwork] at hnot
  | lost id' =>
    cases hmay
    cases hwork
  | won id' =>
    obtain ⟨_, hnone | hsame⟩ := hmay
    · exact absurd (hwork.symm.trans hnone) (by simp)
    · cases hsame.symm.trans hwork
      rfl

theorem stable_won (id : Uuid) : Stable errands (· = .won id) := by
  rintro m st rfl _
  exact ⟨fun _ _ => rfl, fun _ => rfl⟩

/-- Along every run a closed message keeps its status, content and error message; at
most one final callback of a message is told that it updated it; and the journal and the
chain of a message are the work of one request. -/
theorem message_finality (hS : (server cfg).Reachable S) (hrun : (server cfg).Run S moves T) :
    (∀ id m m', S.store.message? id = some m → m.status.isTerminal = true →
      T.store.message? id = some m' →
      m'.status = m.status ∧ m'.content = m.content ∧ m'.errorMessage = m.errorMessage) ∧
    (∀ i j req req' id,
      T.requests i = some (.callback req, .reply ⟨200, .updated true⟩) →
      T.requests j = some (.callback req', .reply ⟨200, .updated true⟩) →
      req.body.messageId = some id → req'.body.messageId = some id →
      req.body.isThinking = false → req'.body.isThinking = false → i = j) ∧
    (∀ i j q q' st st' k k' r r' id,
      S.requests i = some (q, .await st k r) → st.finalWork = some id →
      T.requests j = some (q', .await st' k' r') → st'.finalWork = some id → i = j) := by
  obtain ⟨modes, hfollows, hdecided⟩ := (keeps_errands cfg).reachable hS
  obtain ⟨modes', hfollows', hdecided', hevolves⟩ := (keeps_errands cfg).run hrun hfollows hdecided
  refine ⟨fun id m m' hm hterminal hm' => ?_, fun i j req req' id hi hj hid hid' hfinal hfinal' => ?_,
    fun i j q q' st st' k k' r r' id hi hwork hj hwork' => ?_⟩
  · have hclosed : m.status.isOpen = false := by
      revert hterminal
      cases m.status <;> simp [Status.isTerminal, Status.isOpen]
    exact (reads_of_run hS hrun hm hclosed).same m' hm'
  · obtain ⟨mᵢ, hmᵢ, hreplyᵢ⟩ := hfollows'.present i _ _ hi
    obtain ⟨mⱼ, hmⱼ, hreplyⱼ⟩ := hfollows'.present j _ _ hj
    rw [hreplyᵢ req id rfl hfinal hid rfl] at hmᵢ
    rw [hreplyⱼ req' id rfl hfinal' hid' rfl] at hmⱼ
    exact hdecided'.unique i j id hmᵢ hmⱼ
  · obtain ⟨_, hwonᵢ, rfl⟩ := hevolves _ (stable_won id) i _ (won_of_finalWork hfollows hi hwork) rfl
    exact hdecided'.unique i j id hwonᵢ (won_of_finalWork hfollows' hj hwork')

/-- The answer of `ann` stays although an error callback for the same message follows. -/
theorem message_finality_sample :
    ∃ moves moves' : List ChatMove, ∃ m m' : Message,
      (Sample.after moves).store.message? 12 = some m ∧ m.status = .complete ∧
      (Sample.after (moves ++ moves')).store.message? 12 = some m' ∧ m'.status = .complete ∧
      m'.content = "done" := by
  let moves := Sample.serve 0 (Sample.openThread [1]) 4 ++
    Sample.serve 1 (Sample.callback 12 "complete" "done") 5
  let moves' := Sample.serve 2 (Sample.callback 12 "error" "late") 2
  have hS : (server Sample.config).Reachable (Sample.after moves) :=
    Sample.reachable (by decide +kernel)
  have hrun : (server Sample.config).Run (Sample.after moves) moves'
      (Sample.after (moves ++ moves')) := Sample.run (by decide +kernel)
  obtain ⟨m, hm, hstatus, hcontent⟩ : ∃ m, (Sample.after moves).store.message? 12 = some m ∧
      m.status = .complete ∧ m.content = "done" :=
    ⟨{ id := 12, seq := 3, threadId := 10, authorId := 1, authorType := .agent
       role := .assistant, content := "done", status := .complete, replyTo := some 11
       createdAt := 0, updatedAt := 0 }, by decide +kernel, rfl, rfl⟩
  obtain ⟨m', hm'⟩ : ∃ m', (Sample.after (moves ++ moves')).store.message? 12 = some m' :=
    Option.isSome_iff_exists.mp (by decide +kernel)
  have hfinal := (message_finality hS hrun).1 12 m m' hm (by rw [hstatus]; rfl) hm'
  exact ⟨moves, moves', m, m', hm, hstatus, hm', hfinal.1.trans hstatus,
    hfinal.2.1.trans hcontent⟩

end Runs

end Hill90.Chat
