import Mathlib.Logic.Function.Basic
import Hill90.Foundation.Machine
import Hill90.Foundation.Program

/-! # Interleaved requests over one store

Requests arrive in any number and wait at their statements side by side.  A move
lets one of them have its answer, fails its statement, loses the answer of a
statement that took effect, lets a request in or lets the surroundings change the
store.  An invariant of all interleavings is proved from one discipline: every
handler meets it, and every permitted statement keeps a property of the store and
the modes of the requests in flight.
-/

namespace Hill90

variable {St : Type} {Rows : St → Type} {ε ι ρ σ κ η : Type}

/-- The requests a server answers, the effect of its statements under a choice
the outside makes, and the changes that come from elsewhere. -/
structure Service (St : Type) (Rows : St → Type) (ε ι ρ σ κ η : Type) where
  fresh : σ → Prop
  handler : ι → Program St Rows ε ρ
  run : σ → κ → (s : St) → Except ε (Rows s × σ)
  environment : σ → η → Option σ

inductive Move (ε ι κ η : Type) where
  | arrive (q : ι)
  | resume (i : ℕ) (c : κ)
  | reject (i : ℕ) (e : ε)
  | lose (i : ℕ) (c : κ) (e : ε)
  | environment (x : η)

def Move.subject : Move ε ι κ η → Option ℕ
  | .resume i _ | .reject i _ | .lose i _ _ => some i
  | .arrive _ | .environment _ => none

structure System (St : Type) (Rows : St → Type) (ε ι ρ σ : Type) where
  store : σ
  requests : ℕ → Option (ι × Program St Rows ε ρ)
  arrivals : ℕ

namespace System

def enter (S : System St Rows ε ι ρ σ) (q : ι) (p : Program St Rows ε ρ) :
    System St Rows ε ι ρ σ :=
  ⟨S.store, Function.update S.requests S.arrivals (some (q, p)), S.arrivals + 1⟩

def proceed (S : System St Rows ε ι ρ σ) (i : ℕ) (store : σ) (q : ι) (p : Program St Rows ε ρ) :
    System St Rows ε ι ρ σ :=
  ⟨store, Function.update S.requests i (some (q, p)), S.arrivals⟩

def ended (S : System St Rows ε ι ρ σ) (i : ℕ) : Bool :=
  match S.requests i with
  | some (_, .await ..) => false
  | _ => true

def Idle (S : System St Rows ε ι ρ σ) : Prop := ∀ i, S.ended i = true

def alone (S : System St Rows ε ι ρ σ) (i : ℕ) : Bool :=
  (List.range S.arrivals).all fun j => j = i || S.ended j

def waits (S : System St Rows ε ι ρ σ) (i : ℕ) : Option St :=
  match S.requests i with
  | some (_, .await s _ _) => some s
  | _ => none

/-- The statement that takes effect in a move, and the choice it does so under. -/
def taking (S : System St Rows ε ι ρ σ) : Move ε ι κ η → Option (St × κ)
  | .resume i c | .lose i c _ =>
    match S.requests i with
    | some (_, .await s _ _) => some (s, c)
    | _ => none
  | .arrive _ | .reject _ _ | .environment _ => none

@[simp] theorem enter_store (S : System St Rows ε ι ρ σ) (q : ι) (p : Program St Rows ε ρ) :
    (S.enter q p).store = S.store := rfl

@[simp] theorem proceed_store (S : System St Rows ε ι ρ σ) (i : ℕ) (store : σ) (q : ι)
    (p : Program St Rows ε ρ) : (S.proceed i store q p).store = store := rfl

theorem waits_eq_some {S : System St Rows ε ι ρ σ} {i : ℕ} {s : St} :
    S.waits i = some s ↔ ∃ q k r, S.requests i = some (q, .await s k r) := by
  unfold waits
  constructor
  · intro h
    split at h
    · rename_i q s k r hwait
      cases h
      exact ⟨q, k, r, hwait⟩
    · cases h
  · rintro ⟨q, k, r, hwait⟩
    rw [hwait]

theorem enter_requests (S : System St Rows ε ι ρ σ) (q : ι) (p : Program St Rows ε ρ) (j : ℕ) :
    (S.enter q p).requests j = if j = S.arrivals then some (q, p) else S.requests j :=
  Function.update_apply _ _ _ _

theorem proceed_requests (S : System St Rows ε ι ρ σ) (i : ℕ) (store : σ) (q : ι)
    (p : Program St Rows ε ρ) (j : ℕ) :
    (S.proceed i store q p).requests j = if j = i then some (q, p) else S.requests j :=
  Function.update_apply _ _ _ _

end System

namespace Service

variable (V : Service St Rows ε ι ρ σ κ η)

def step (S : System St Rows ε ι ρ σ) : Move ε ι κ η → Option (System St Rows ε ι ρ σ)
  | .arrive q => some (S.enter q (V.handler q))
  | .resume i c =>
    match S.requests i with
    | some (q, .await s k r) =>
      match V.run S.store c s with
      | .ok (rows, store) => some (S.proceed i store q (k rows))
      | .error e => some (S.proceed i S.store q (r e))
    | _ => none
  | .reject i e =>
    match S.requests i with
    | some (q, .await _ _ r) => some (S.proceed i S.store q (r e))
    | _ => none
  | .lose i c e =>
    match S.requests i with
    | some (q, .await s _ r) =>
      match V.run S.store c s with
      | .ok (_, store) => some (S.proceed i store q (r e))
      | .error _ => none
    | _ => none
  | .environment x => (V.environment S.store x).map fun store => { S with store }

def machine : Machine (System St Rows ε ι ρ σ) (Move ε ι κ η) where
  initial S := V.fresh S.store ∧ S.requests = (fun _ => none) ∧ S.arrivals = 0
  step := V.step

/-- What a move can do, once for all: a request waiting at `s` either gets rows or
an error, and an error may or may not leave the effect of `s` behind. -/
inductive Moved (S : System St Rows ε ι ρ σ) :
    Move ε ι κ η → System St Rows ε ι ρ σ → Prop where
  | arrived (q : ι) : Moved S (.arrive q) (S.enter q (V.handler q))
  | answered {i : ℕ} {c : κ} {q : ι} {s : St} {k : Rows s → Program St Rows ε ρ}
      {r : ε → Program St Rows ε ρ} {rows : Rows s} {store : σ}
      (waiting : S.requests i = some (q, .await s k r))
      (effect : V.run S.store c s = .ok (rows, store)) :
      Moved S (.resume i c) (S.proceed i store q (k rows))
  | refused {i : ℕ} {c : κ} {q : ι} {s : St} {k : Rows s → Program St Rows ε ρ}
      {r : ε → Program St Rows ε ρ} {e : ε} (waiting : S.requests i = some (q, .await s k r))
      (effect : V.run S.store c s = .error e) : Moved S (.resume i c) (S.proceed i S.store q (r e))
  | rejected {i : ℕ} {q : ι} {s : St} {k : Rows s → Program St Rows ε ρ}
      {r : ε → Program St Rows ε ρ} {e : ε} (waiting : S.requests i = some (q, .await s k r)) :
      Moved S (.reject i e) (S.proceed i S.store q (r e))
  | lost {i : ℕ} {c : κ} {q : ι} {s : St} {k : Rows s → Program St Rows ε ρ}
      {r : ε → Program St Rows ε ρ} {rows : Rows s} {store : σ} {e : ε}
      (waiting : S.requests i = some (q, .await s k r))
      (effect : V.run S.store c s = .ok (rows, store)) :
      Moved S (.lose i c e) (S.proceed i store q (r e))
  | around {x : η} {store : σ} (effect : V.environment S.store x = some store) :
      Moved S (.environment x) { S with store }

variable {V} {S T : System St Rows ε ι ρ σ} {a : Move ε ι κ η}

theorem moved_of_step (h : V.step S a = some T) : V.Moved S a T := by
  cases a with
  | arrive q =>
    cases h
    exact .arrived q
  | resume i c =>
    simp only [step] at h
    split at h
    · rename_i q s k r hwait
      split at h
      · rename_i rows store heff
        cases h
        exact .answered hwait heff
      · rename_i e heff
        cases h
        exact .refused hwait heff
    · cases h
  | reject i e =>
    simp only [step] at h
    split at h
    · rename_i q s k r hwait
      cases h
      exact .rejected hwait
    · cases h
  | lose i c e =>
    simp only [step] at h
    split at h
    · rename_i q s k r hwait
      split at h
      · rename_i rows store heff
        cases h
        exact .lost hwait heff
      · cases h
    · cases h
  | environment x =>
    obtain ⟨store, heff, rfl⟩ := Option.map_eq_some_iff.mp h
    exact .around heff

/-- A change of the store that no statement and no surroundings can make never happens. -/
theorem store_relates {ok : System St Rows ε ι ρ σ → Move ε ι κ η → Prop} {R : σ → σ → Prop}
    {as : List (Move ε ι κ η)} (h : V.machine.RunIf ok S as T) (hrefl : ∀ s, R s s)
    (htrans : ∀ s t u, R s t → R t u → R s u)
    (hrun : ∀ s c st rows s', V.run s c st = .ok (rows, s') → R s s')
    (henv : ∀ s x s', V.environment s x = some s' → R s s') : R S.store T.store := by
  refine h.relates (I := fun _ => True) (R := fun S T => R S.store T.store) trivial
    (fun _ _ _ _ _ _ => trivial) (fun _ => hrefl _) (fun _ _ _ => htrans _ _ _) ?_
  intro S a T _ _ hstep
  cases moved_of_step hstep with
  | arrived q => exact hrefl _
  | answered _ heff => exact hrun _ _ _ _ _ heff
  | refused _ _ => exact hrefl _
  | rejected _ => exact hrefl _
  | lost _ heff => exact hrun _ _ _ _ _ heff
  | around heff => exact henv _ _ _ heff

theorem none_of_arrivals_le {ok : System St Rows ε ι ρ σ → Move ε ι κ η → Prop}
    (h : V.machine.ReachableIf ok S) : ∀ i, S.arrivals ≤ i → S.requests i = none := by
  apply h.invariant (I := fun S => ∀ i, S.arrivals ≤ i → S.requests i = none)
  · rintro S ⟨_, hrequests, _⟩ i _
    rw [hrequests]
  · intro S a T hS _ hstep i hi
    have hproceed : ∀ {j q p store}, S.requests j ≠ none → S.arrivals ≤ i →
        (S.proceed j store q p).requests i = none := by
      intro j q p store hj hi
      rw [System.proceed_requests, if_neg]
      · exact hS i hi
      · rintro rfl
        exact hj (hS i hi)
    cases moved_of_step hstep with
    | arrived q =>
      have hi' : S.arrivals + 1 ≤ i := hi
      rw [System.enter_requests, if_neg (by omega)]
      exact hS i (by omega)
    | answered hwait _ => exact hproceed (by simp [hwait]) hi
    | refused hwait _ => exact hproceed (by simp [hwait]) hi
    | rejected hwait => exact hproceed (by simp [hwait]) hi
    | lost hwait _ => exact hproceed (by simp [hwait]) hi
    | around _ => exact hS i hi

theorem idle_of_ended {ok : System St Rows ε ι ρ σ → Move ε ι κ η → Prop}
    (h : V.machine.ReachableIf ok S) (hall : (List.range S.arrivals).all S.ended = true) :
    S.Idle := by
  intro i
  by_cases hi : i < S.arrivals
  · exact List.all_eq_true.mp hall i (List.mem_range.mpr hi)
  · simp [System.ended, none_of_arrivals_le h i (Nat.le_of_not_lt hi)]

theorem ended_of_alone {ok : System St Rows ε ι ρ σ → Move ε ι κ η → Prop} {i j : ℕ}
    (h : V.machine.ReachableIf ok S) (hall : S.alone i = true) (hne : j ≠ i) :
    S.ended j = true := by
  by_cases hj : j < S.arrivals
  · have hor := List.all_eq_true.mp hall j (List.mem_range.mpr hj)
    simpa [hne] using hor
  · simp [System.ended, none_of_arrivals_le h j (Nat.le_of_not_lt hj)]

theorem store_invariant {ok : System St Rows ε ι ρ σ → Move ε ι κ η → Prop} {I : σ → Prop}
    (h : V.machine.ReachableIf ok S) (hfresh : ∀ s, V.fresh s → I s)
    (hrun : ∀ s c st rows s', I s → V.run s c st = .ok (rows, s') → I s')
    (henv : ∀ s x s', I s → V.environment s x = some s' → I s') : I S.store := by
  obtain ⟨S₀, as, ⟨hinit, _, _⟩, hruns⟩ := h
  exact store_relates (R := fun s t => I s → I t) hruns (fun _ hs => hs)
    (fun _ _ _ hst htu hs => htu (hst hs)) (fun s c st rows s' heff hs => hrun s c st rows s' hs heff)
    (fun s x s' heff hs => henv s x s' hs heff) (hfresh _ hinit)

/-- As `store_invariant`, where the moves that take effect are allowed. -/
theorem store_invariant_if {ok : System St Rows ε ι ρ σ → Move ε ι κ η → Prop} {I : σ → Prop}
    (h : V.machine.ReachableIf ok S) (hfresh : ∀ s, V.fresh s → I s)
    (hrun : ∀ (S : System St Rows ε ι ρ σ) (a : Move ε ι κ η) st c rows s', ok S a →
      S.taking a = some (st, c) → I S.store → V.run S.store c st = .ok (rows, s') → I s')
    (henv : ∀ (S : System St Rows ε ι ρ σ) x s', ok S (.environment x) → I S.store →
      V.environment S.store x = some s' → I s') : I S.store := by
  apply h.invariant (I := fun S => I S.store)
  · exact fun S hS => hfresh _ hS.1
  · intro S a T hS hok hstep
    cases moved_of_step hstep with
    | arrived q => exact hS
    | answered hwait heff => exact hrun S _ _ _ _ _ hok (by simp only [System.taking, hwait]) hS heff
    | refused _ _ => exact hS
    | rejected _ => exact hS
    | lost hwait heff => exact hrun S _ _ _ _ _ hok (by simp only [System.taking, hwait]) hS heff
    | around heff => exact henv S _ _ hok hS heff

theorem update_eq_some {μ : Type} {modes : ℕ → Option μ} {i j : ℕ} {m n : μ}
    (h : Function.update modes i (some m) j = some n) :
    (j = i ∧ m = n) ∨ (j ≠ i ∧ modes j = some n) := by
  by_cases hji : j = i
  · subst hji
    rw [Function.update_self] at h
    exact .inl ⟨rfl, Option.some.inj h⟩
  · rw [Function.update_of_ne hji] at h
    exact .inr ⟨hji, h⟩

section Discipline

variable {μ : Type} {D : Discipline St Rows ε μ}

variable (D) in
/-- Each request in flight has a mode in which the rest of its program meets the
discipline and replies as `answers` says. -/
structure Follows (answers : ι → ρ → μ → Prop) (S : System St Rows ε ι ρ σ)
    (modes : ℕ → Option μ) : Prop where
  later : ∀ i, S.arrivals ≤ i → S.requests i = none
  absent : ∀ i, S.requests i = none → modes i = none
  present : ∀ i q p, S.requests i = some (q, p) →
    ∃ m, modes i = some m ∧ p.Meets D (answers q) (fun _ _ => True) m

variable (V D) in
/-- The obligations of an interleaving invariant: handlers start in a mode in
which they meet the discipline, and whatever a permitted statement does to the
store and to the mode of its request keeps `G`. -/
structure Keeps (start : ι → μ) (answers : ι → ρ → μ → Prop)
    (G : σ → (ℕ → Option μ) → Prop) : Prop where
  handler : ∀ q, (V.handler q).Meets D (answers q) (fun _ _ => True) (start q)
  fresh : ∀ s, V.fresh s → G s fun _ => none
  arrive : ∀ s modes i q, G s modes → modes i = none →
    G s (Function.update modes i (some (start q)))
  answer : ∀ s modes i m c st rows s', G s modes → modes i = some m → D.may m st →
    V.run s c st = .ok (rows, s') → D.returns st rows ∧
      G s' (Function.update modes i (some (D.returned m st rows)))
  fail : ∀ s modes i m st e, G s modes → modes i = some m → D.may m st →
    G s (Function.update modes i (some (D.rejected m st e)))
  lose : ∀ s modes i m c st rows s' e, G s modes → modes i = some m → D.may m st →
    V.run s c st = .ok (rows, s') →
      G s' (Function.update modes i (some (D.rejected m st e)))
  around : ∀ s modes x s', G s modes → V.environment s x = some s' → G s' modes

variable {start : ι → μ} {answers : ι → ρ → μ → Prop}
  {G : σ → (ℕ → Option μ) → Prop}

theorem Follows.waiting {modes : ℕ → Option μ} {i : ℕ} {q : ι} {s : St}
    {k : Rows s → Program St Rows ε ρ} {r : ε → Program St Rows ε ρ}
    (h : Follows D answers S modes) (hwait : S.requests i = some (q, .await s k r)) :
    ∃ m, modes i = some m ∧ D.may m s ∧
      (∀ rows, D.returns s rows →
        (k rows).Meets D (answers q) (fun _ _ => True) (D.returned m s rows)) ∧
      ∀ e, (r e).Meets D (answers q) (fun _ _ => True) (D.rejected m s e) := by
  obtain ⟨m, hm, hmay, hrows, herr⟩ := h.present i q _ hwait
  exact ⟨m, hm, hmay, hrows, herr⟩

theorem Follows.proceed {modes : ℕ → Option μ} {i : ℕ} {q : ι}
    {p p' : Program St Rows ε ρ} {m : μ} {store : σ} (h : Follows D answers S modes)
    (hwait : S.requests i = some (q, p'))
    (hp : p.Meets D (answers q) (fun _ _ => True) m) :
    Follows D answers (S.proceed i store q p) (Function.update modes i (some m)) := by
  have hne : ∀ j, S.requests j = none → j ≠ i := by
    rintro j hj rfl
    rw [hj] at hwait
    cases hwait
  refine ⟨fun j hj => ?_, fun j hj => ?_, fun j q' p'' hj => ?_⟩
  · have hnone := h.later j hj
    rw [System.proceed_requests, if_neg (hne j hnone)]
    exact hnone
  · rw [System.proceed_requests] at hj
    split at hj
    · cases hj
    · rw [Function.update_of_ne ‹_›]
      exact h.absent j hj
  · rw [System.proceed_requests] at hj
    split at hj
    · cases hj
      subst j
      exact ⟨m, Function.update_self _ _ _, hp⟩
    · rw [Function.update_of_ne ‹_›]
      exact h.present j q' p'' hj

theorem Follows.enter {modes : ℕ → Option μ} {q : ι} {p : Program St Rows ε ρ} {m : μ}
    (h : Follows D answers S modes) (hp : p.Meets D (answers q) (fun _ _ => True) m) :
    Follows D answers (S.enter q p) (Function.update modes S.arrivals (some m)) := by
  refine ⟨fun j hj => ?_, fun j hj => ?_, fun j q' p' hj => ?_⟩
  · have hj' : S.arrivals + 1 ≤ j := hj
    rw [System.enter_requests, if_neg (by omega)]
    exact h.later j (by omega)
  · rw [System.enter_requests] at hj
    split at hj
    · cases hj
    · rw [Function.update_of_ne ‹_›]
      exact h.absent j hj
  · rw [System.enter_requests] at hj
    split at hj
    · cases hj
      subst j
      exact ⟨m, Function.update_self _ _ _, hp⟩
    · rw [Function.update_of_ne ‹_›]
      exact h.present j q' p' hj

variable (D) in
def Stable (P : μ → Prop) : Prop :=
  ∀ m s, P m → D.may m s →
    (∀ rows, D.returns s rows → P (D.returned m s rows)) ∧ ∀ e, P (D.rejected m s e)

variable (D) in
/-- The request of each index has a mode again, one that has what is stable of the old. -/
def Evolves (modes modes' : ℕ → Option μ) : Prop :=
  ∀ P, Stable D P → ∀ i m, modes i = some m → P m → ∃ m', modes' i = some m' ∧ P m'

theorem Evolves.refl (modes : ℕ → Option μ) : Evolves D modes modes :=
  fun _ _ _ m hm hP => ⟨m, hm, hP⟩

theorem Evolves.trans {a b c : ℕ → Option μ} (hab : Evolves D a b) (hbc : Evolves D b c) :
    Evolves D a c := by
  intro P hstable i m hm hP
  obtain ⟨m', hm', hP'⟩ := hab P hstable i m hm hP
  exact hbc P hstable i m' hm' hP'

theorem Evolves.update {modes : ℕ → Option μ} {i : ℕ} {m m' : μ}
    (hm : modes i = some m) (h : ∀ P, Stable D P → P m → P m') :
    Evolves D modes (Function.update modes i (some m')) := by
  intro P hstable j n hn hP
  by_cases hji : j = i
  · subst hji
    cases hm.symm.trans hn
    exact ⟨m', Function.update_self _ _ _, h P hstable hP⟩
  · exact ⟨n, by rwa [Function.update_of_ne hji], hP⟩

theorem Keeps.step (h : V.Keeps D start answers G)
    {modes : ℕ → Option μ} (hfollows : Follows D answers S modes) (hG : G S.store modes)
    (hstep : V.step S a = some T) :
    ∃ modes', Follows D answers T modes' ∧ G T.store modes' ∧ Evolves D modes modes' := by
  cases moved_of_step hstep with
  | arrived q =>
    have hnone : modes S.arrivals = none := hfollows.absent _ (hfollows.later _ (Nat.le_refl _))
    refine ⟨_, hfollows.enter (h.handler q), h.arrive _ _ _ q hG hnone, ?_⟩
    intro P _ i m hm hP
    have hi : i ≠ S.arrivals := by
      rintro rfl
      cases hnone.symm.trans hm
    exact ⟨m, by rwa [Function.update_of_ne hi], hP⟩
  | answered hwait heff =>
    obtain ⟨m, hm, hmay, hrows, _⟩ := hfollows.waiting hwait
    obtain ⟨hreturns, hG'⟩ := h.answer _ _ _ _ _ _ _ _ hG hm hmay heff
    exact ⟨_, hfollows.proceed hwait (hrows _ hreturns), hG',
      .update hm fun P hstable hP => (hstable m _ hP hmay).1 _ hreturns⟩
  | refused hwait _ =>
    obtain ⟨m, hm, hmay, _, herr⟩ := hfollows.waiting hwait
    exact ⟨_, hfollows.proceed hwait (herr _), h.fail _ _ _ _ _ _ hG hm hmay,
      .update hm fun P hstable hP => (hstable m _ hP hmay).2 _⟩
  | rejected hwait =>
    obtain ⟨m, hm, hmay, _, herr⟩ := hfollows.waiting hwait
    exact ⟨_, hfollows.proceed hwait (herr _), h.fail _ _ _ _ _ _ hG hm hmay,
      .update hm fun P hstable hP => (hstable m _ hP hmay).2 _⟩
  | lost hwait heff =>
    obtain ⟨m, hm, hmay, _, herr⟩ := hfollows.waiting hwait
    exact ⟨_, hfollows.proceed hwait (herr _), h.lose _ _ _ _ _ _ _ _ _ hG hm hmay heff,
      .update hm fun P hstable hP => (hstable m _ hP hmay).2 _⟩
  | around heff =>
    exact ⟨modes, ⟨hfollows.later, hfollows.absent, hfollows.present⟩,
      h.around _ _ _ _ hG heff, .refl modes⟩

theorem Keeps.run (h : V.Keeps D start answers G)
    {ok : System St Rows ε ι ρ σ → Move ε ι κ η → Prop} {as : List (Move ε ι κ η)}
    (hrun : V.machine.RunIf ok S as T) {modes : ℕ → Option μ}
    (hfollows : Follows D answers S modes) (hG : G S.store modes) :
    ∃ modes', Follows D answers T modes' ∧ G T.store modes' ∧ Evolves D modes modes' := by
  induction hrun generalizing modes with
  | nil S => exact ⟨modes, hfollows, hG, .refl modes⟩
  | cons _ hstep _ ih =>
    obtain ⟨modes₁, hfollows₁, hG₁, hevolves₁⟩ := h.step hfollows hG hstep
    obtain ⟨modes₂, hfollows₂, hG₂, hevolves₂⟩ := ih hfollows₁ hG₁
    exact ⟨modes₂, hfollows₂, hG₂, hevolves₁.trans hevolves₂⟩

/-- In every reachable state the requests in flight have modes for which `G` holds. -/
theorem Keeps.reachable (h : V.Keeps D start answers G)
    {ok : System St Rows ε ι ρ σ → Move ε ι κ η → Prop} (hS : V.machine.ReachableIf ok S) :
    ∃ modes, Follows D answers S modes ∧ G S.store modes := by
  obtain ⟨S₀, as, ⟨hfresh, hrequests, _⟩, hrun⟩ := hS
  have hfollows : Follows D answers S₀ fun _ => none := by
    refine ⟨fun i _ => by rw [hrequests], fun _ _ => rfl, fun i q p hi => ?_⟩
    rw [hrequests] at hi
    cases hi
  obtain ⟨modes, hfollows', hG', _⟩ := h.run hrun hfollows (h.fresh _ hfresh)
  exact ⟨modes, hfollows', hG'⟩

variable (V D) in
/-- The obligations of an invariant of one request and the store: the other requests
keep `J` with any statement, and the request keeps it with each of its own. -/
structure Tracks (ok : System St Rows ε ι ρ σ → Move ε ι κ η → Prop) (i : ℕ) (q : ι)
    (J : σ → μ → Prop) : Prop where
  others : ∀ s c st rows s' m, J s m → V.run s c st = .ok (rows, s') → J s' m
  around : ∀ s x s' m, J s m → V.environment s x = some s' → J s' m
  answer : ∀ S c st k r rows s' m, ok S (.resume i c) → S.requests i = some (q, .await st k r) →
    D.may m st → J S.store m → V.run S.store c st = .ok (rows, s') →
      D.returns st rows ∧ J s' (D.returned m st rows)
  refuse : ∀ S c st k r e m, ok S (.resume i c) → S.requests i = some (q, .await st k r) →
    D.may m st → J S.store m → V.run S.store c st = .error e → J S.store (D.rejected m st e)
  reject : ∀ S st k r e m, ok S (.reject i e) → S.requests i = some (q, .await st k r) →
    D.may m st → J S.store m → J S.store (D.rejected m st e)
  lose : ∀ S c st k r rows s' e m, ok S (.lose i c e) → S.requests i = some (q, .await st k r) →
    D.may m st → J S.store m → V.run S.store c st = .ok (rows, s') → J s' (D.rejected m st e)

/-- What is tracked of a request: the rest of its program, and a mode that fits both
the program and the store. -/
def Tracked (D : Discipline St Rows ε μ) (i : ℕ) (q : ι) (answer : ρ → μ → Prop)
    (J : σ → μ → Prop) (S : System St Rows ε ι ρ σ) : Prop :=
  ∃ p m, S.requests i = some (q, p) ∧ p.Meets D answer (fun _ _ => True) m ∧ J S.store m

theorem Tracks.step {ok : System St Rows ε ι ρ σ → Move ε ι κ η → Prop} {i : ℕ} {q : ι}
    {answer : ρ → μ → Prop} {J : σ → μ → Prop} (h : V.Tracks D ok i q J)
    (hS : Tracked D i q answer J S) (hi : i < S.arrivals) {a : Move ε ι κ η} (hok : ok S a)
    (hstep : V.step S a = some T) : Tracked D i q answer J T := by
  obtain ⟨p, m, hp, hmeets, hJ⟩ := hS
  have hown : ∀ {s : St} {k : Rows s → Program St Rows ε ρ} {r : ε → Program St Rows ε ρ} {q' : ι},
      S.requests i = some (q', .await s k r) → q' = q ∧ p = .await s k r := by
    intro s k r q' hwait
    cases hp.symm.trans hwait
    exact ⟨rfl, rfl⟩
  have hother : ∀ {j : ℕ} {q' : ι} {p' : Program St Rows ε ρ} {store : σ}, i ≠ j →
      (S.proceed j store q' p').requests i = some (q, p) := by
    intro j q' p' store hne
    rw [System.proceed_requests, if_neg hne]
    exact hp
  cases moved_of_step hstep with
  | arrived q' =>
    refine ⟨p, m, ?_, hmeets, hJ⟩
    rw [System.enter_requests, if_neg (Nat.ne_of_lt hi)]
    exact hp
  | @answered j c q' st k r rows store hwait heff =>
    by_cases hij : i = j
    · subst hij
      obtain ⟨rfl, rfl⟩ := hown hwait
      obtain ⟨hmay, hrows, _⟩ := hmeets
      obtain ⟨hreturns, hJ'⟩ := h.answer _ _ _ _ _ _ _ _ hok hwait hmay hJ heff
      refine ⟨_, _, ?_, hrows rows hreturns, hJ'⟩
      rw [System.proceed_requests, if_pos rfl]
    · exact ⟨p, m, hother hij, hmeets, h.others _ _ _ _ _ _ hJ heff⟩
  | @refused j c q' st k r e hwait heff =>
    by_cases hij : i = j
    · subst hij
      obtain ⟨rfl, rfl⟩ := hown hwait
      obtain ⟨hmay, _, herr⟩ := hmeets
      refine ⟨_, _, ?_, herr e, h.refuse S _ _ _ _ _ _ hok hwait hmay hJ heff⟩
      rw [System.proceed_requests, if_pos rfl]
    · exact ⟨p, m, hother hij, hmeets, hJ⟩
  | @rejected j q' st k r e hwait =>
    by_cases hij : i = j
    · subst hij
      obtain ⟨rfl, rfl⟩ := hown hwait
      obtain ⟨hmay, _, herr⟩ := hmeets
      refine ⟨_, _, ?_, herr e, h.reject S _ _ _ _ _ hok hwait hmay hJ⟩
      rw [System.proceed_requests, if_pos rfl]
    · exact ⟨p, m, hother hij, hmeets, hJ⟩
  | @lost j c q' st k r rows store e hwait heff =>
    by_cases hij : i = j
    · subst hij
      obtain ⟨rfl, rfl⟩ := hown hwait
      obtain ⟨hmay, _, herr⟩ := hmeets
      refine ⟨_, _, ?_, herr e, h.lose _ _ _ _ _ _ _ _ _ hok hwait hmay hJ heff⟩
      rw [System.proceed_requests, if_pos rfl]
    · exact ⟨p, m, hother hij, hmeets, h.others _ _ _ _ _ _ hJ heff⟩
  | around heff => exact ⟨p, m, hp, hmeets, h.around _ _ _ _ hJ heff⟩

theorem arrivals_le (hstep : V.step S a = some T) : S.arrivals ≤ T.arrivals := by
  cases moved_of_step hstep with
  | arrived _ => exact Nat.le_succ _
  | _ => exact Nat.le_refl _

theorem Tracks.run {ok : System St Rows ε ι ρ σ → Move ε ι κ η → Prop} {i : ℕ} {q : ι}
    {answer : ρ → μ → Prop} {J : σ → μ → Prop} (h : V.Tracks D ok i q J)
    (hS : Tracked D i q answer J S) (hi : i < S.arrivals) {as : List (Move ε ι κ η)}
    (hrun : V.machine.RunIf ok S as T) : Tracked D i q answer J T := by
  have hboth := hrun.invariant (I := fun S => Tracked D i q answer J S ∧ i < S.arrivals) ⟨hS, hi⟩
    fun S a T hS hok hstep =>
      ⟨h.step hS.1 hS.2 hok hstep, Nat.lt_of_lt_of_le hS.2 (arrivals_le hstep)⟩
  exact hboth.1

/-- The obligations of an invariant of the store, and of a fact that each request in flight
knows of it: every effect a move may have keeps both, and no effect unlearns the fact of a
request that still goes on. -/
structure Guards (V : Service St Rows ε ι ρ σ κ η) (D : Discipline St Rows ε μ)
    (ok : System St Rows ε ι ρ σ → Move ε ι κ η → Prop) (start : ι → μ)
    (answers : ι → ρ → μ → Prop) (raises : ε → μ → Prop) (I : σ → Prop) (J : σ → μ → Prop) :
    Prop where
  handler : ∀ q, (V.handler q).Meets D (answers q) raises (start q)
  fresh : ∀ s, V.fresh s → I s
  arrive : ∀ s q, I s → J s (start q)
  fail : ∀ s m st e, D.may m st → J s m → J s (D.rejected m st e)
  effect : ∀ S a st c rows s' m, V.machine.ReachableIf ok S → ok S a → S.taking a = some (st, c) →
    D.may m st → I S.store → J S.store m → V.run S.store c st = .ok (rows, s') →
      I s' ∧ (∀ j q p n, S.requests j = some (q, p) → p.Meets D (answers q) raises n →
        J S.store n → J s' n) ∧ D.returns st rows ∧ J s' (D.returned m st rows)
  around : ∀ s x s', I s → V.environment s x = some s' → I s' ∧ ∀ n, J s n → J s' n

/-- Each request in flight knows a fact that fits the rest of its program. -/
def Guarded (D : Discipline St Rows ε μ) (answers : ι → ρ → μ → Prop) (raises : ε → μ → Prop)
    (I : σ → Prop) (J : σ → μ → Prop) (S : System St Rows ε ι ρ σ) : Prop :=
  I S.store ∧ ∀ i q p, S.requests i = some (q, p) →
    ∃ m, p.Meets D (answers q) raises m ∧ J S.store m

variable {raises : ε → μ → Prop}

theorem Guarded.waiting {I : σ → Prop} {J : σ → μ → Prop} {i : ℕ} {q : ι} {s : St}
    {k : Rows s → Program St Rows ε ρ} {r : ε → Program St Rows ε ρ}
    (h : Guarded D answers raises I J S) (hwait : S.requests i = some (q, .await s k r)) :
    ∃ m, J S.store m ∧ D.may m s := by
  obtain ⟨m, hmeets, hJ⟩ := h.2 i q _ hwait
  exact ⟨m, hJ, hmeets.1⟩

theorem Guarded.proceed {I : σ → Prop} {J : σ → μ → Prop} {i : ℕ} {q : ι}
    {p : Program St Rows ε ρ} {m : μ} {store : σ} (h : Guarded D answers raises I J S)
    (hI : I store)
    (hJ : ∀ j q p n, S.requests j = some (q, p) → p.Meets D (answers q) raises n →
      J S.store n → J store n)
    (hp : p.Meets D (answers q) raises m) (hm : J store m) :
    Guarded D answers raises I J (S.proceed i store q p) := by
  refine ⟨hI, fun j q' p' hj => ?_⟩
  rw [System.proceed_requests] at hj
  split at hj
  · cases hj
    exact ⟨m, hp, hm⟩
  · obtain ⟨n, hn, hJn⟩ := h.2 j q' p' hj
    exact ⟨n, hn, hJ j q' p' n hj hn hJn⟩

theorem Guards.step {ok : System St Rows ε ι ρ σ → Move ε ι κ η → Prop} {I : σ → Prop}
    {J : σ → μ → Prop} (h : V.Guards D ok start answers raises I J)
    (hreach : V.machine.ReachableIf ok S) (hS : Guarded D answers raises I J S) (hok : ok S a)
    (hstep : V.step S a = some T) : Guarded D answers raises I J T := by
  cases moved_of_step hstep with
  | arrived q =>
    refine ⟨hS.1, fun j q' p' hj => ?_⟩
    rw [System.enter_requests] at hj
    split at hj
    · cases hj
      exact ⟨start q, h.handler q, h.arrive _ q hS.1⟩
    · exact hS.2 j q' p' hj
  | @answered i c q st k r rows store hwait heff =>
    obtain ⟨m, ⟨hmay, hrows, _⟩, hJ⟩ := hS.2 i q _ hwait
    have htaking : S.taking (.resume i c : Move ε ι κ η) = some (st, c) := by simp [System.taking, hwait]
    obtain ⟨hI, hkeep, hreturns, hm⟩ :=
      h.effect S _ st c _ _ m hreach hok htaking hmay hS.1 hJ heff
    exact hS.proceed hI hkeep (hrows _ hreturns) hm
  | refused hwait _ =>
    obtain ⟨m, ⟨hmay, _, herr⟩, hJ⟩ := hS.2 _ _ _ hwait
    exact hS.proceed hS.1 (fun _ _ _ _ _ _ hn => hn) (herr _) (h.fail _ _ _ _ hmay hJ)
  | rejected hwait =>
    obtain ⟨m, ⟨hmay, _, herr⟩, hJ⟩ := hS.2 _ _ _ hwait
    exact hS.proceed hS.1 (fun _ _ _ _ _ _ hn => hn) (herr _) (h.fail _ _ _ _ hmay hJ)
  | @lost i c q st k r rows store e hwait heff =>
    obtain ⟨m, hmeets, hJ⟩ := hS.2 i q _ hwait
    have htaking : S.taking (.lose i c e : Move ε ι κ η) = some (st, c) := by simp [System.taking, hwait]
    obtain ⟨hI, hkeep, _, _⟩ :=
      h.effect S _ st c _ _ m hreach hok htaking hmeets.1 hS.1 hJ heff
    exact hS.proceed hI hkeep (hmeets.2.2 e)
      (h.fail _ _ _ _ hmeets.1 (hkeep i q _ m hwait hmeets hJ))
  | around heff =>
    obtain ⟨hI, hkeep⟩ := h.around _ _ _ hS.1 heff
    refine ⟨hI, fun j q' p' hj => ?_⟩
    obtain ⟨n, hn, hJn⟩ := hS.2 j q' p' hj
    exact ⟨n, hn, hkeep n hJn⟩

theorem Guards.reachable {ok : System St Rows ε ι ρ σ → Move ε ι κ η → Prop} {I : σ → Prop}
    {J : σ → μ → Prop} (h : V.Guards D ok start answers raises I J)
    (hS : V.machine.ReachableIf ok S) : Guarded D answers raises I J S := by
  apply hS.induction
  · rintro S ⟨hfresh, hrequests, _⟩
    refine ⟨h.fresh _ hfresh, fun i q p hi => ?_⟩
    rw [hrequests] at hi
    cases hi
  · exact fun S a T hreach hS hok hstep => h.step hreach hS hok hstep

end Discipline

end Service

end Hill90
