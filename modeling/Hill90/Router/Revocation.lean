import Mathlib.Tactic.Linarith
import Hill90.Foundation.Recorded
import Hill90.Router.Routes

/-! # The set of revoked tokens in memory

Calls of the `RevocationManager` side by side.  A preload or a cleanup reads the denylist and
replaces the set by what it has read, so what was added in between is forgotten.
-/

namespace Hill90.Router

open Program

abbrev State := System Statement Statement.Rows Failure Request Response Store

abbrev RouterMove := Move Failure Request Choice Surroundings

def Request.manages : Request → Bool
  | revoke _ | preload | cleanup => true
  | _ => false

def addTail (jti : String) : Handler Response := .await (.addRevoked jti) (fun _ => .reply .done) .raise

def revokeTail (r : RevokedToken) : Handler Response :=
  .await (.insertRevoked r) (fun _ => addTail r.jti) .raise

def replaceTail (jtis : List String) : Handler Response :=
  .await (.replaceRevoked jtis) (fun _ => .reply .done) .raise

def selectTail (now : ℤ) : Handler Response := .await (.selectUnexpired now) replaceTail .raise

def deleteTail (now : ℤ) : Handler Response :=
  .await (.deleteExpired now) (fun _ => selectTail now) .raise

/-- How far a call has come. -/
inductive Phase : Request → Handler Response → Prop where
  | revoke (r : RevokedToken) : Phase (.revoke r) (revokeTail r)
  | add (r : RevokedToken) : Phase (.revoke r) (addTail r.jti)
  | preload : Phase .preload (.await .readClock selectTail .raise)
  | cleanup : Phase .cleanup (.await .readClock deleteTail .raise)
  | delete {q : Request} (hq : ∀ r, q ≠ .revoke r) (now : ℤ) : Phase q (deleteTail now)
  | select {q : Request} (hq : ∀ r, q ≠ .revoke r) (now : ℤ) : Phase q (selectTail now)
  | replace {q : Request} (hq : ∀ r, q ≠ .revoke r) (jtis : List String) : Phase q (replaceTail jtis)
  | replied (q : Request) : Phase q (.reply .done)
  | raised (q : Request) (e : Failure) : Phase q (.raise e)

theorem phase_handler (cfg : Config) {q : Request} (h : q.manages = true) : Phase q (q.handler cfg) := by
  cases q with
  | revoke r => exact .revoke r
  | preload => exact .preload
  | cleanup => exact .cleanup
  | chat | embeddings | delegate | revokeDelegation => cases h

def waitsAt : Handler Response → Option Statement
  | .await s _ _ => some s
  | _ => none

theorem waits_eq (S : State) (i : ℕ) : S.waits i = (S.requests i).bind fun x => waitsAt x.2 := by
  unfold System.waits
  cases hi : S.requests i with
  | none => rfl
  | some x =>
    obtain ⟨q, p⟩ := x
    cases p <;> rfl

theorem waits_proceed (S : State) (i j : ℕ) (s : Store) (q : Request) (p : Handler Response) :
    (S.proceed i s q p).waits j = if j = i then waitsAt p else S.waits j := by
  rw [waits_eq, waits_eq, System.proceed_requests]
  split
  · rfl
  · rfl

/-- The calls that stored a row: those whose INSERT met no row of its `jti`. -/
def noteStored (S : State) (a : RouterMove) (_ : State) (stored : List ℕ) : List ℕ :=
  match S.taking a with
  | some (.insertRevoked r, _) =>
    if (S.store.revokedTokens.get? r.jti).isNone then a.subject.toList ++ stored else stored
  | _ => stored

/-- Only the manager is called, and no revoke completes while a preload or a cleanup is about to
replace the set by a list that it selected before the row was stored. -/
def Undisturbed (S : State) (_ : List ℕ) (a : RouterMove) : Prop :=
  (∀ q, a = .arrive q → q.manages = true) ∧
    ∀ jti c, S.taking a = some (.addRevoked jti, c) →
      ∀ j jtis, S.waits j = some (.replaceRevoked jtis) →
        ∀ r ∈ S.store.revokedTokens.rows, r.jti = jti → ⌊S.store.now⌋ < r.expiresAt → jti ∈ jtis

/-- The row of a call is still there, and once the call has completed its `jti` is in the set and
in every list that is about to replace it. -/
def Remembered (S : State) (r : RevokedToken) (p : Handler Response) : Prop :=
  ⌊S.store.now⌋ < r.expiresAt → r ∈ S.store.revokedTokens.rows ∧
    ∀ a, p = .reply a → r.jti ∈ S.store.revokedJtis ∧
      ∀ j jtis, S.waits j = some (.replaceRevoked jtis) → r.jti ∈ jtis

structure Sound (S : State) (stored : List ℕ) : Prop where
  phases : ∀ i q p, S.requests i = some (q, p) → Phase q p
  deletes : ∀ i n, S.waits i = some (.deleteExpired n) → n ≤ ⌊S.store.now⌋
  selects : ∀ i n, S.waits i = some (.selectUnexpired n) → n ≤ ⌊S.store.now⌋
  remembered : ∀ i ∈ stored, ∃ r p, S.requests i = some (.revoke r, p) ∧ Remembered S r p

variable {S : State} {stored : List ℕ} {i : ℕ} {q : Request} {p p' : Handler Response} {s' : Store}

/-- What a step of one call has to do for the others: it lets no unexpired row go, and forgets
nothing that all pending lists contain. -/
structure Preserves (S : State) (s' : Store) : Prop where
  now : s'.now = S.store.now
  rows : ∀ r ∈ S.store.revokedTokens.rows, ⌊S.store.now⌋ < r.expiresAt → r ∈ s'.revokedTokens.rows
  cache : ∀ jti ∈ S.store.revokedJtis,
    (∀ j jtis, S.waits j = some (.replaceRevoked jtis) → jti ∈ jtis) → jti ∈ s'.revokedJtis

/-- The lists a call in this phase is about to replace the set by contain the unexpired rows. -/
def Lists (s : Store) (p : Handler Response) : Prop :=
  ∀ jtis, waitsAt p = some (.replaceRevoked jtis) →
    ∀ r ∈ s.revokedTokens.rows, ⌊s.now⌋ < r.expiresAt → r.jti ∈ jtis

theorem Sound.proceed (hS : Sound S stored) (hi : S.requests i = some (q, p)) (h : Preserves S s')
    (hphase : Phase q p') (hdeletes : ∀ n, waitsAt p' = some (.deleteExpired n) → n ≤ ⌊S.store.now⌋)
    (hselects : ∀ n, waitsAt p' = some (.selectUnexpired n) → n ≤ ⌊S.store.now⌋)
    (hlists : Lists S.store p')
    (hreply : ∀ r a, q = .revoke r → p' = .reply a → ⌊S.store.now⌋ < r.expiresAt →
      r ∈ S.store.revokedTokens.rows → r.jti ∈ s'.revokedJtis ∧
        ∀ j jtis, S.waits j = some (.replaceRevoked jtis) → r.jti ∈ jtis) :
    Sound (S.proceed i s' q p') stored where
  phases := by
    intro j q' p'' hj
    rw [System.proceed_requests] at hj
    split at hj
    · cases hj
      exact hphase
    · exact hS.phases j q' p'' hj
  deletes := by
    intro j n hj
    rw [System.proceed_store, h.now]
    rw [waits_proceed] at hj
    split at hj
    · exact hdeletes n hj
    · exact hS.deletes j n hj
  selects := by
    intro j n hj
    rw [System.proceed_store, h.now]
    rw [waits_proceed] at hj
    split at hj
    · exact hselects n hj
    · exact hS.selects j n hj
  remembered := by
    intro j hj
    obtain ⟨r, pj, hjr, hrem⟩ := hS.remembered j hj
    have hlater : ∀ {p₀ : Handler Response}, (∀ a, p₀ = .reply a → ⌊S.store.now⌋ < r.expiresAt →
        r ∈ S.store.revokedTokens.rows → r.jti ∈ s'.revokedJtis ∧
          ∀ j jtis, S.waits j = some (.replaceRevoked jtis) → r.jti ∈ jtis) →
        Remembered (S.proceed i s' q p') r p₀ := by
      intro p₀ hp₀ hunexpired
      rw [System.proceed_store, h.now] at hunexpired
      obtain ⟨hrow, _⟩ := hrem hunexpired
      refine ⟨h.rows r hrow hunexpired, fun a ha => ?_⟩
      obtain ⟨hcache, hall⟩ := hp₀ a ha hunexpired hrow
      refine ⟨hcache, fun k jtis hk => ?_⟩
      rw [waits_proceed] at hk
      split at hk
      · exact hlists jtis hk r hrow hunexpired
      · exact hall k jtis hk
    by_cases hji : j = i
    · subst hji
      cases hi.symm.trans hjr
      refine ⟨r, p', by rw [System.proceed_requests, if_pos rfl], hlater ?_⟩
      exact fun a ha hun hrow => hreply r a rfl ha hun hrow
    · refine ⟨r, pj, by rw [System.proceed_requests, if_neg hji, hjr], hlater fun a ha hun _ => ?_⟩
      obtain ⟨hcache, hall⟩ := (hrem hun).2 a ha
      exact ⟨h.cache _ hcache hall, hall⟩

/-- A call that ends or moves on without having replied, and without a list. -/
theorem Sound.quiet (hS : Sound S stored) (hi : S.requests i = some (q, p)) (h : Preserves S s')
    (hphase : Phase q p') (hdeletes : ∀ n, waitsAt p' = some (.deleteExpired n) → n ≤ ⌊S.store.now⌋)
    (hselects : ∀ n, waitsAt p' = some (.selectUnexpired n) → n ≤ ⌊S.store.now⌋)
    (hlists : ∀ jtis, waitsAt p' ≠ some (.replaceRevoked jtis))
    (hreply : ∀ r, q = .revoke r → ∀ a, p' ≠ .reply a) : Sound (S.proceed i s' q p') stored :=
  hS.proceed hi h hphase hdeletes hselects (fun jtis hj => absurd hj (hlists jtis))
    fun r a hq ha => absurd ha (hreply r hq a)

theorem Sound.raised (hS : Sound S stored) (hi : S.requests i = some (q, p)) (h : Preserves S s')
    (e : Failure) : Sound (S.proceed i s' q (.raise e)) stored :=
  hS.quiet hi h (.raised q e) (fun _ h => by cases h) (fun _ h => by cases h) (fun _ h => by cases h)
    fun _ _ _ h => by cases h

theorem preserves_refl (S : State) : Preserves S S.store := ⟨rfl, fun _ h _ => h, fun _ h _ => h⟩

theorem preserves_insert (r : RevokedToken) : Preserves S
    { S.store with revokedTokens := (S.store.revokedTokens.insert r).getD S.store.revokedTokens } := by
  refine ⟨rfl, fun r' hr' _ => ?_, fun _ h _ => h⟩
  cases hins : S.store.revokedTokens.insert r with
  | none => exact hr'
  | some rows =>
    change r' ∈ rows.rows
    rw [Table.rows_of_insert hins]
    exact List.mem_append_left _ hr'

theorem preserves_add (jti : String) :
    Preserves S { S.store with revokedJtis := jti :: S.store.revokedJtis } :=
  ⟨rfl, fun _ h _ => h, fun _ h _ => List.mem_cons_of_mem _ h⟩

theorem preserves_delete {n : ℤ} (hn : n ≤ ⌊S.store.now⌋) : Preserves S
    { S.store with revokedTokens := S.store.revokedTokens.delete fun r => r.expiresAt ≤ n } := by
  refine ⟨rfl, fun r hr hun => Table.mem_delete.mpr ⟨hr, ?_⟩, fun _ h _ => h⟩
  simp only [decide_eq_false_iff_not, not_le]
  omega

theorem preserves_replace {jtis : List String} {j : ℕ} (hj : S.waits j = some (.replaceRevoked jtis)) :
    Preserves S { S.store with revokedJtis := jtis } :=
  ⟨rfl, fun _ h _ => h, fun _ _ hall => hall j jtis hj⟩

theorem preserves_run {st : Statement} {c : Choice} {rows : st.Rows} (hS : Sound S stored)
    (hi : S.waits i = some st) (hphase : ∃ q p, Phase q p ∧ waitsAt p = some st)
    (h : Statement.run S.store c st = .ok (rows, s')) : Preserves S s' := by
  obtain ⟨q, p, hp, hst⟩ := hphase
  cases hp with
  | revoke r =>
    cases hst
    cases h
    exact preserves_insert r
  | add r =>
    cases hst
    cases h
    exact preserves_add r.jti
  | preload =>
    cases hst
    cases h
    exact preserves_refl S
  | cleanup =>
    cases hst
    cases h
    exact preserves_refl S
  | delete _ n =>
    cases hst
    cases h
    exact preserves_delete (hS.deletes i n hi)
  | select _ n =>
    cases hst
    cases h
    exact preserves_refl S
  | replace _ jtis =>
    cases hst
    cases h
    exact preserves_replace hi
  | replied _ => cases hst
  | raised _ _ => cases hst

theorem Sound.enter (hS : Sound S stored) (hlater : S.requests S.arrivals = none) (cfg : Config)
    (hq : q.manages = true) : Sound (S.enter q (q.handler cfg)) stored := by
  have hwaits : ∀ j st, (S.enter q (q.handler cfg)).waits j = some st →
      S.waits j = some st ∨ waitsAt (q.handler cfg) = some st := by
    intro j st hj
    rw [waits_eq, System.enter_requests] at hj
    split at hj
    · exact .inr hj
    · exact .inl (by rw [waits_eq]; exact hj)
  have hfirst : ∀ st, waitsAt (q.handler cfg) = some st → (∃ r, st = .insertRevoked r) ∨ st = .readClock := by
    intro st hst
    cases q with
    | revoke r => exact .inl ⟨r, (Option.some.inj hst).symm⟩
    | preload | cleanup => exact .inr (Option.some.inj hst).symm
    | chat | embeddings | delegate | revokeDelegation => cases hq
  refine ⟨fun j q' p hj => ?_, fun j n hj => ?_, fun j n hj => ?_, fun j hj => ?_⟩
  · rw [System.enter_requests] at hj
    split at hj
    · cases hj
      exact phase_handler cfg hq
    · exact hS.phases j q' p hj
  · obtain h | h := hwaits j _ hj
    · exact hS.deletes j n h
    · obtain ⟨r, hr⟩ | hr := hfirst _ h <;> cases hr
  · obtain h | h := hwaits j _ hj
    · exact hS.selects j n h
    · obtain ⟨r, hr⟩ | hr := hfirst _ h <;> cases hr
  · obtain ⟨r, p, hjr, hrem⟩ := hS.remembered j hj
    have hne : j ≠ S.arrivals := by
      rintro rfl
      cases hlater.symm.trans hjr
    refine ⟨r, p, by rw [System.enter_requests, if_neg hne, hjr], fun hun => ?_⟩
    refine ⟨(hrem hun).1, fun a ha => ⟨((hrem hun).2 a ha).1, fun k jtis hk => ?_⟩⟩
    obtain h | h := hwaits k _ hk
    · exact ((hrem hun).2 a ha).2 k jtis h
    · obtain ⟨r, hr⟩ | hr := hfirst _ h <;> cases hr

theorem Sound.around {x : Surroundings} (hS : Sound S stored) (h : x.apply S.store = some s') :
    Sound { S with store := s' } stored := by
  have hnow : S.store.now ≤ s'.now ∧ s'.revokedTokens = S.store.revokedTokens ∧
      s'.revokedJtis = S.store.revokedJtis := by
    cases x with
    | tick d =>
      simp only [Surroundings.apply] at h
      split at h
      · cases h
        exact ⟨by simpa using ‹0 ≤ d›, rfl, rfl⟩
      · cases h
    | rewrite policies catalog owners =>
      cases h
      exact ⟨le_rfl, rfl, rfl⟩
  obtain ⟨hle, hrows, hcache⟩ := hnow
  have hfloor : ⌊S.store.now⌋ ≤ ⌊s'.now⌋ := Int.floor_le_floor hle
  refine ⟨hS.phases, fun j n hj => (hS.deletes j n hj).trans hfloor,
    fun j n hj => (hS.selects j n hj).trans hfloor, fun j hj => ?_⟩
  obtain ⟨r, p, hjr, hrem⟩ := hS.remembered j hj
  refine ⟨r, p, hjr, fun hun => ?_⟩
  obtain ⟨hrow, hreply⟩ := hrem (lt_of_le_of_lt hfloor hun)
  exact ⟨by rw [hrows]; exact hrow, fun a ha => ⟨by rw [hcache]; exact (hreply a ha).1, (hreply a ha).2⟩⟩

theorem Sound.store (hS : Sound S stored) {r : RevokedToken} (hi : S.requests i = some (.revoke r, p))
    (hrow : ⌊S.store.now⌋ < r.expiresAt → r ∈ S.store.revokedTokens.rows) (hp : ∀ a, p ≠ .reply a) :
    Sound S (i :: stored) where
  phases := hS.phases
  deletes := hS.deletes
  selects := hS.selects
  remembered := by
    intro j hj
    obtain rfl | hj := List.mem_cons.mp hj
    · exact ⟨r, p, hi, fun hun => ⟨hrow hun, fun a ha => absurd ha (hp a)⟩⟩
    · exact hS.remembered j hj

theorem mem_insert_of_fresh {t : Table RevokedToken.jti} {r : RevokedToken}
    (h : (t.get? r.jti).isNone = true) : r ∈ ((t.insert r).getD t).rows := by
  obtain ⟨rows, hins⟩ := Table.exists_insert (Option.isNone_iff_eq_none.mp h)
  rw [hins]
  exact (Table.mem_of_insert hins).mpr (.inr rfl)

variable {cfg : Config} {T : State}

/-- An answer, or an effect whose answer is lost: the call moves on, and what it stored is noted. -/
theorem Sound.taken {st : Statement} {k : st.Rows → Handler Response} {r : Failure → Handler Response}
    {c : Choice} {rows : st.Rows} (hS : Sound S stored)
    (hi : S.requests i = some (q, .await st k r)) (heff : Statement.run S.store c st = .ok (rows, s'))
    (hok : ∀ jti, st = .addRevoked jti → ∀ j jtis, S.waits j = some (.replaceRevoked jtis) →
      ∀ r ∈ S.store.revokedTokens.rows, r.jti = jti → ⌊S.store.now⌋ < r.expiresAt → jti ∈ jtis) :
    Sound (S.proceed i s' q (k rows)) stored ∧ (∀ e, Sound (S.proceed i s' q (r e)) stored) ∧
      ∀ row, st = .insertRevoked row → (S.store.revokedTokens.get? row.jti).isNone = true →
        Sound (S.proceed i s' q (k rows)) (i :: stored) ∧
          ∀ e, Sound (S.proceed i s' q (r e)) (i :: stored) := by
  have hwait : S.waits i = some st := by
    rw [waits_eq, hi]
    rfl
  have hphase := hS.phases i q _ hi
  have hpres : Preserves S s' := preserves_run hS hwait ⟨q, _, hphase, rfl⟩ heff
  have hraise : ∀ e, Sound (S.proceed i s' q (.raise e)) stored := hS.raised hi hpres
  cases hphase with
  | revoke row =>
    have hadd : Sound (S.proceed i s' (.revoke row) (addTail row.jti)) stored :=
      hS.quiet hi hpres (.add row) (fun _ h => by cases h) (fun _ h => by cases h)
        (fun _ h => by cases h) fun _ _ _ h => by cases h
    refine ⟨hadd, hraise, fun row' hrow' hfresh => ?_⟩
    cases hrow'
    cases heff
    have hmem : ∀ p : Handler Response, ⌊S.store.now⌋ < row.expiresAt → row ∈
        (S.proceed i { S.store with
          revokedTokens := (S.store.revokedTokens.insert row).getD S.store.revokedTokens }
          (.revoke row) p).store.revokedTokens.rows := fun _ _ => mem_insert_of_fresh hfresh
    constructor
    · exact hadd.store (by rw [System.proceed_requests, if_pos rfl]) (hmem _) fun _ h => by cases h
    · intro e
      exact (hraise e).store (by rw [System.proceed_requests, if_pos rfl]) (hmem _) fun _ h => by cases h
  | add row =>
    refine ⟨?_, hraise, fun _ h => by cases h⟩
    cases heff
    refine hS.proceed hi hpres (.replied _) (fun _ h => by cases h) (fun _ h => by cases h)
      (fun _ h => by cases h) fun row' a hq _ hun hrow => ?_
    cases hq
    exact ⟨List.mem_cons_self, fun j jtis hj => hok _ rfl j jtis hj row hrow rfl hun⟩
  | preload =>
    refine ⟨?_, hraise, fun _ h => by cases h⟩
    cases heff
    refine hS.quiet hi hpres (.select (fun _ h => by cases h) _) (fun _ h => by cases h) (fun n h => ?_)
      (fun _ h => by cases h) fun _ h => by cases h
    cases h
    exact le_rfl
  | cleanup =>
    refine ⟨?_, hraise, fun _ h => by cases h⟩
    cases heff
    refine hS.quiet hi hpres (.delete (fun _ h => by cases h) _) (fun n h => ?_) (fun _ h => by cases h)
      (fun _ h => by cases h) fun _ h => by cases h
    cases h
    exact le_rfl
  | delete hq n =>
    refine ⟨?_, hraise, fun _ h => by cases h⟩
    refine hS.quiet hi hpres (.select hq n) (fun _ h => by cases h) (fun n' h => ?_)
      (fun _ h => by cases h) fun row h => absurd h (hq row)
    cases h
    exact hS.deletes i n hwait
  | select hq n =>
    refine ⟨?_, hraise, fun _ h => by cases h⟩
    cases heff
    refine hS.proceed hi hpres (.replace hq _) (fun _ h => by cases h) (fun _ h => by cases h)
      (fun jtis h row hrow hun => ?_) fun row _ h => absurd h (hq row)
    cases h
    refine List.mem_map_of_mem (List.mem_filter.mpr ⟨hrow, ?_⟩)
    exact decide_eq_true (lt_of_le_of_lt (hS.selects i n hwait) hun)
  | replace hq jtis =>
    refine ⟨?_, hraise, fun _ h => by cases h⟩
    exact hS.proceed hi hpres (.replied q) (fun _ h => by cases h) (fun _ h => by cases h)
      (fun _ h => by cases h) fun row _ h => absurd h (hq row)

theorem raises_of_phase {st : Statement} {k : st.Rows → Handler Response} {r : Failure → Handler Response}
    (h : Phase q (.await st k r)) : r = .raise := by
  cases h <;> rfl

theorem noteStored_of_taking {a : RouterMove} {st : Statement} {c : Choice}
    (h : S.taking a = some (st, c)) (hst : ∀ r, st ≠ .insertRevoked r) :
    noteStored S a T stored = stored := by
  unfold noteStored
  rw [h]
  cases st <;> first | rfl | exact absurd rfl (hst _)

theorem noteStored_of_insert {a : RouterMove} {r : RevokedToken} {c : Choice}
    (h : S.taking a = some (.insertRevoked r, c)) (hsubject : a.subject = some i) :
    noteStored S a T stored =
      if (S.store.revokedTokens.get? r.jti).isNone then i :: stored else stored := by
  unfold noteStored
  rw [h, hsubject]
  rfl

theorem sound_of_recorded
    (h : (service cfg).machine.Recorded noteStored [] Undisturbed S stored) : Sound S stored := by
  induction h with
  | @initial S h =>
    obtain ⟨_, hrequests, _⟩ := h
    have hnone : ∀ i, S.waits i = none := fun i => by rw [waits_eq, hrequests]; rfl
    exact ⟨fun i q p hi => by simp [hrequests] at hi, fun i n hi => by simp [hnone] at hi,
      fun i n hi => by simp [hnone] at hi, fun i hi => by cases hi⟩
  | @step S T g a before hok hmove hS =>
    have hlater := Service.none_of_arrivals_le before.reachable S.arrivals (Nat.le_refl _)
    obtain ⟨harrive, hadd⟩ := hok
    cases Service.moved_of_step hmove with
    | arrived q => exact hS.enter hlater cfg (harrive q rfl)
    | @answered i c q st k r rows s' hwait heff =>
      have htaking : S.taking (.resume i c : RouterMove) = some (st, c) := by
        simp only [System.taking, hwait]
      obtain ⟨hT, _, hstore⟩ := hS.taken hwait heff fun jti hjti => hadd jti c (by rw [htaking, hjti])
      by_cases hinsert : ∃ row, st = .insertRevoked row
      · obtain ⟨row, rfl⟩ := hinsert
        rw [noteStored_of_insert htaking rfl]
        split
        · exact (hstore row rfl ‹_›).1
        · exact hT
      · rw [noteStored_of_taking htaking fun row hrow => hinsert ⟨row, hrow⟩]
        exact hT
    | @refused i c q st k r e hwait heff =>
      have htaking : S.taking (.resume i c : RouterMove) = some (st, c) := by
        simp only [System.taking, hwait]
      have hr := raises_of_phase (hS.phases i q _ hwait)
      subst hr
      rw [noteStored_of_taking htaking fun row hrow => by subst hrow; cases heff]
      exact hS.raised hwait (preserves_refl S) e
    | @rejected i q st k r e hwait =>
      have hr := raises_of_phase (hS.phases i q _ hwait)
      subst hr
      exact hS.raised hwait (preserves_refl S) e
    | @lost i c q st k r rows s' e hwait heff =>
      have htaking : S.taking (.lose i c e : RouterMove) = some (st, c) := by
        simp only [System.taking, hwait]
      obtain ⟨_, hT, hstore⟩ := hS.taken hwait heff fun jti hjti => hadd jti c (by rw [htaking, hjti])
      by_cases hinsert : ∃ row, st = .insertRevoked row
      · obtain ⟨row, rfl⟩ := hinsert
        rw [noteStored_of_insert htaking rfl]
        split
        · exact (hstore row rfl ‹_›).2 e
        · exact hT e
      · rw [noteStored_of_taking htaking fun row hrow => hinsert ⟨row, hrow⟩]
        exact hT e
    | around heff => exact hS.around heff

/-- The cache of revoked tokens is sound: after every step the set contains the `jti` of every
completed revoke that stored its row, as long as the row has not expired. -/
theorem revoked_remembered
    (h : (service cfg).machine.Recorded noteStored [] Undisturbed S stored) {i : ℕ} (hi : i ∈ stored)
    {r : RevokedToken} {a : Response} (hdone : S.requests i = some (.revoke r, .reply a))
    (hunexpired : ⌊S.store.now⌋ < r.expiresAt) : r.jti ∈ S.store.revokedJtis := by
  obtain ⟨r', p, hreq, hrem⟩ := (sound_of_recorded h).remembered i hi
  cases hdone.symm.trans hreq
  exact ((hrem hunexpired).2 a rfl).1

def undisturbedNow (S : State) (_ : List ℕ) (a : RouterMove) : Bool :=
  match a with
  | .arrive q => q.manages
  | a =>
    match S.taking a with
    | some (.addRevoked jti, _) => (List.range S.arrivals).all fun j =>
      match S.waits j with
      | some (.replaceRevoked jtis) => jti ∈ jtis
      | _ => true
    | _ => true

theorem undisturbed_of_check (g : List ℕ) {a : RouterMove}
    (hS : (service cfg).machine.Reachable S) (h : undisturbedNow S g a = true) : Undisturbed S g a := by
  constructor
  · rintro q rfl
    exact h
  · intro jti c htaking j jtis hj r _ _ _
    have hlt : j < S.arrivals := by
      by_contra hge
      rw [waits_eq, Service.none_of_arrivals_le hS j (Nat.le_of_not_lt hge)] at hj
      cases hj
    have hall : ((List.range S.arrivals).all fun j =>
        match S.waits j with
        | some (.replaceRevoked jtis) => jti ∈ jtis
        | _ => true) = true := by
      unfold undisturbedNow at h
      cases a with
      | arrive q => cases htaking
      | resume | reject | lose | environment =>
        simp only [htaking] at h
        exact h
    have hmem := List.all_eq_true.mp hall j (List.mem_range.mpr hlt)
    simpa [hj] using hmem

def startState : State := ⟨blank, fun _ => none, 0⟩

theorem initial_startState : (service cfg).machine.initial startState := ⟨fresh_blank, rfl, rfl⟩

def sampleToken : RevokedToken := ⟨"a-jti", "scout", 100⟩

/-- A revoke while a cleanup is under way, completed before the cleanup selects. -/
def orderlyCleanup : List RouterMove :=
  [.arrive .cleanup, .arrive (.revoke sampleToken), .resume 0 {}, .resume 0 {}, .resume 1 {},
    .resume 1 {}, .resume 0 {}, .resume 0 {}]

/-- A revoke that stores its row after a cleanup has selected, and completes before it replaces. -/
def lateReplacement : List RouterMove :=
  [.arrive .cleanup, .arrive (.revoke sampleToken), .resume 0 {}, .resume 0 {}, .resume 0 {},
    .resume 1 {}, .resume 1 {}, .resume 0 {}]

def recordOfMoves (C : State → List ℕ → RouterMove → Bool) (moves : List RouterMove) : State × List ℕ :=
  ((service unkeyed).machine.record noteStored C startState [] moves).getD (startState, [])

theorem recorded_moves {ok : State → List ℕ → RouterMove → Prop}
    {C : State → List ℕ → RouterMove → Bool} {moves : List RouterMove}
    (hcheck : ∀ S g a, (service unkeyed).machine.Reachable S → C S g a = true → ok S g a)
    (h : ((service unkeyed).machine.record noteStored C startState [] moves).isSome = true) :
    (service unkeyed).machine.Recorded noteStored [] ok (recordOfMoves C moves).1
      (recordOfMoves C moves).2 := by
  obtain ⟨⟨S, g⟩, hS⟩ := Option.isSome_iff_exists.mp h
  rw [recordOfMoves, hS]
  exact Machine.recorded_of_record (fun S g a hrec hc => hcheck S g a hrec.reachable hc)
    (.initial initial_startState) hS

theorem revoked_remembered_orderly :
    "a-jti" ∈ (recordOfMoves undisturbedNow orderlyCleanup).1.store.revokedJtis := by
  have hrecorded : (service unkeyed).machine.Recorded noteStored [] Undisturbed
      (recordOfMoves undisturbedNow orderlyCleanup).1 (recordOfMoves undisturbedNow orderlyCleanup).2 :=
    recorded_moves (fun _ g _ hS hc => undisturbed_of_check g hS hc) (by decide +kernel)
  have hstored : 1 ∈ (recordOfMoves undisturbedNow orderlyCleanup).2 := by decide +kernel
  exact revoked_remembered hrecorded hstored (r := sampleToken) (a := .done) rfl (by decide +kernel)

def OnlyManager (_ : State) (_ : List ℕ) (a : RouterMove) : Prop := ∀ q, a = .arrive q → q.manages = true

def onlyManagerNow (_ : State) (_ : List ℕ) : RouterMove → Bool
  | .arrive q => q.manages
  | _ => true

/-- A cleanup forgets a revoke that completed while it was running. -/
theorem cleanup_forgets :
    ¬∀ (S : State) (stored : List ℕ),
      (service unkeyed).machine.Recorded noteStored [] OnlyManager S stored →
      ∀ i ∈ stored, ∀ (r : RevokedToken) (a : Response), S.requests i = some (.revoke r, .reply a) →
        ⌊S.store.now⌋ < r.expiresAt → r.jti ∈ S.store.revokedJtis := by
  intro h
  have hrecorded : (service unkeyed).machine.Recorded noteStored [] OnlyManager
      (recordOfMoves onlyManagerNow lateReplacement).1 (recordOfMoves onlyManagerNow lateReplacement).2 :=
    recorded_moves (fun _ _ _ _ hc q hq => by subst hq; exact hc) (by decide +kernel)
  have hmem := h _ _ hrecorded 1 (by decide +kernel) sampleToken .done rfl (by decide +kernel)
  revert hmem
  decide +kernel

end Hill90.Router
