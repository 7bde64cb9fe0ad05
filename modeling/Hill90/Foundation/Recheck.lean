import Hill90.Foundation.Interleaving

/-! # Facts that requests in flight rely on

A request looks something up and acts on it later.  It relies on a fact as long as it may come to
its act without another lookup of it.  When no effect takes a fact from a request that relies on
it, every act finds its fact.
-/

namespace Hill90.Service

open Program

variable {St : Type} {Rows : St → Type} {ε ι ρ σ κ η μ γ : Type}
variable {V : Service St Rows ε ι ρ σ κ η} {D : ι → Discipline St Rows ε μ}
variable {ok : System St Rows ε ι ρ σ → Move ε ι κ η → Prop}
variable {look act : γ → St → Prop} {knows : μ → γ → Prop} {holds : γ → ι → σ → Prop}
variable {S T : System St Rows ε ι ρ σ} {a : Move ε ι κ η}

def Relies (D : Discipline St Rows ε μ) (look act : γ → St → Prop) (p : Program St Rows ε ρ) (g : γ) :
    Prop := p.Reaches D.returns (look g) (act g)

/-- Only a lookup teaches a request a fact, and the fact holds then. -/
structure Rechecks (V : Service St Rows ε ι ρ σ κ η) (D : ι → Discipline St Rows ε μ)
    (ok : System St Rows ε ι ρ σ → Move ε ι κ η → Prop) (look act : γ → St → Prop)
    (knows : μ → γ → Prop) (holds : γ → ι → σ → Prop) : Prop where
  handler : ∀ S q, ok S (.arrive q) →
    ∃ m, (V.handler q).Meets (D q) (fun _ _ => True) (fun _ _ => True) m ∧ ∀ g, ¬knows m g
  acts : ∀ q m st g, (D q).may m st → act g st → knows m g
  returned : ∀ q m st rows g, ¬look g st → knows ((D q).returned m st rows) g → knows m g
  rejected : ∀ q m st e g, knows ((D q).rejected m st e) g → ¬look g st ∧ knows m g
  credible : ∀ S c q st rows s', V.machine.ReachableIf ok S → V.run S.store c st = .ok (rows, s') →
    (D q).returns st rows
  looked : ∀ S a c q m st rows s' g, V.machine.ReachableIf ok S → ok S a →
    S.taking a = some (st, c) → (D q).may m st → V.run S.store c st = .ok (rows, s') → look g st →
    knows ((D q).returned m st rows) g → holds g q s'
  kept : ∀ S a st c rows s', ok S a → S.taking a = some (st, c) →
    V.run S.store c st = .ok (rows, s') → ∀ i q p g, S.requests i = some (q, p) →
    Relies (D q) look act p g → holds g q S.store → holds g q s'
  around : ∀ S x s', ok S (.environment x) → V.environment S.store x = some s' →
    ∀ i q p g, S.requests i = some (q, p) → Relies (D q) look act p g → holds g q S.store → holds g q s'

def Relied (D : ι → Discipline St Rows ε μ) (look act : γ → St → Prop) (holds : γ → ι → σ → Prop)
    (S : System St Rows ε ι ρ σ) : Prop :=
  ∀ i q p, S.requests i = some (q, p) →
    (∃ m, p.Meets (D q) (fun _ _ => True) (fun _ _ => True) m) ∧
      ∀ g, Relies (D q) look act p g → holds g q S.store

theorem Rechecks.knows_of_relies (h : V.Rechecks D ok look act knows holds) {q : ι}
    {p : Program St Rows ε ρ} {m : μ} {g : γ}
    (hp : p.Meets (D q) (fun _ _ => True) (fun _ _ => True) m) (hrelies : Relies (D q) look act p g) :
    knows m g := by
  apply hp.of_reaches (P := fun m => knows m g) _ _ _ hrelies
  · exact fun m st hmay hact => h.acts q m st g hmay hact
  · exact fun m st rows _ hlook hknows => h.returned q m st rows g hlook hknows
  · exact fun m st e _ hknows => (h.rejected q m st e g hknows).2

theorem Relied.proceed {i : ℕ} {q : ι} {p : Program St Rows ε ρ} {store : σ}
    (h : Relied D look act holds S)
    (hkeep : ∀ j q p g, S.requests j = some (q, p) → Relies (D q) look act p g →
      holds g q S.store → holds g q store)
    (hself : (∃ m, p.Meets (D q) (fun _ _ => True) (fun _ _ => True) m) ∧
      ∀ g, Relies (D q) look act p g → holds g q store) :
    Relied D look act holds (S.proceed i store q p) := by
  intro j q' p' hj
  rw [System.proceed_requests] at hj
  split at hj
  · cases hj
    exact hself
  · obtain ⟨hmeets, hholds⟩ := h j q' p' hj
    exact ⟨hmeets, fun g hrelies => hkeep j q' p' g hj hrelies (hholds g hrelies)⟩

/-- After an error a request relies on what it relied on before. -/
theorem Rechecks.after_error (h : V.Rechecks D ok look act knows holds)
    (hS : Relied D look act holds S) {i : ℕ} {q : ι} {st : St}
    {k : Rows st → Program St Rows ε ρ} {r : ε → Program St Rows ε ρ}
    (hwait : S.requests i = some (q, .await st k r)) (e : ε) :
    (∃ m, (r e).Meets (D q) (fun _ _ => True) (fun _ _ => True) m) ∧
      ∀ g, Relies (D q) look act (r e) g → Relies (D q) look act (.await st k r) g := by
  obtain ⟨⟨m, _, _, herr⟩, _⟩ := hS i q _ hwait
  refine ⟨⟨_, herr e⟩, fun g hrelies => ?_⟩
  have hnot := (h.rejected q m st e g (h.knows_of_relies (herr e) hrelies)).1
  exact .inr ⟨hnot, .inr ⟨e, hrelies⟩⟩

theorem Rechecks.step (h : V.Rechecks D ok look act knows holds)
    (hreach : V.machine.ReachableIf ok S) (hS : Relied D look act holds S) (hok : ok S a)
    (hstep : V.step S a = some T) :
    Relied D look act holds T := by
  cases moved_of_step hstep with
  | arrived q =>
    intro j q' p' hj
    rw [System.enter_requests] at hj
    split at hj
    · cases hj
      obtain ⟨m, hmeets, hknows⟩ := h.handler S q hok
      exact ⟨⟨m, hmeets⟩, fun g hrelies => absurd (h.knows_of_relies hmeets hrelies) (hknows g)⟩
    · exact hS j q' p' hj
  | @answered i c q st k r rows store hwait heff =>
    obtain ⟨⟨m, hmay, hrows, _⟩, hholds⟩ := hS i q _ hwait
    have htaking : S.taking (.resume i c : Move ε ι κ η) = some (st, c) := by simp [System.taking, hwait]
    have hreturns := h.credible S c q st rows store hreach heff
    have hkeep := h.kept S _ st c rows store hok htaking heff
    refine hS.proceed hkeep ⟨⟨_, hrows rows hreturns⟩, fun g hrelies => ?_⟩
    have hknows := h.knows_of_relies (hrows rows hreturns) hrelies
    by_cases hlook : look g st
    · exact h.looked S _ c q m st rows store g hreach hok htaking hmay heff hlook hknows
    · have hbefore : Relies (D q) look act (.await st k r) g :=
        .inr ⟨hlook, .inl ⟨rows, hreturns, hrelies⟩⟩
      exact hkeep i q _ g hwait hbefore (hholds g hbefore)
  | refused hwait _ =>
    obtain ⟨hmeets, hbefore⟩ := h.after_error hS hwait _
    exact hS.proceed (fun _ _ _ _ _ _ hg => hg)
      ⟨hmeets, fun g hrelies => (hS _ _ _ hwait).2 g (hbefore g hrelies)⟩
  | rejected hwait =>
    obtain ⟨hmeets, hbefore⟩ := h.after_error hS hwait _
    exact hS.proceed (fun _ _ _ _ _ _ hg => hg)
      ⟨hmeets, fun g hrelies => (hS _ _ _ hwait).2 g (hbefore g hrelies)⟩
  | @lost i c q st k r rows store e hwait heff =>
    have htaking : S.taking (.lose i c e : Move ε ι κ η) = some (st, c) := by simp [System.taking, hwait]
    have hkeep := h.kept S _ st c rows store hok htaking heff
    obtain ⟨hmeets, hbefore⟩ := h.after_error hS hwait e
    exact hS.proceed hkeep ⟨hmeets, fun g hrelies =>
      hkeep i q _ g hwait (hbefore g hrelies) ((hS i q _ hwait).2 g (hbefore g hrelies))⟩
  | around heff =>
    intro j q p hj
    obtain ⟨hmeets, hholds⟩ := hS j q p hj
    exact ⟨hmeets, fun g hrelies => h.around S _ _ hok heff j q p g hj hrelies (hholds g hrelies)⟩

theorem Rechecks.reachable (h : V.Rechecks D ok look act knows holds)
    (hS : V.machine.ReachableIf ok S) : Relied D look act holds S := by
  apply hS.induction
  · rintro S ⟨_, hrequests, _⟩ i q p hi
    rw [hrequests] at hi
    cases hi
  · exact fun S a T hreach hS hok hstep => h.step hreach hS hok hstep

/-- A request that comes to act on a fact finds it to hold. -/
theorem Rechecks.acted (h : V.Rechecks D ok look act knows holds) (hS : V.machine.ReachableIf ok S)
    {i : ℕ} {q : ι} {st : St} {k : Rows st → Program St Rows ε ρ} {r : ε → Program St Rows ε ρ}
    (hwait : S.requests i = some (q, .await st k r)) {g : γ} (hact : act g st) : holds g q S.store :=
  (h.reachable hS i q _ hwait).2 g (.inl hact)

theorem Rechecks.taken (h : V.Rechecks D ok look act knows holds) (hS : V.machine.ReachableIf ok S)
    {st : St} {c : κ} (htaking : S.taking a = some (st, c)) :
    ∃ i q p m, a.subject = some i ∧ S.requests i = some (q, p) ∧ (D q).may m st ∧
      ∀ g, act g st → holds g q S.store := by
  have hacted : ∀ i, (∃ q k r, S.requests i = some (q, .await st k r)) → a.subject = some i →
      ∃ i q p m, a.subject = some i ∧ S.requests i = some (q, p) ∧ (D q).may m st ∧
        ∀ g, act g st → holds g q S.store := by
    rintro i ⟨q, k, r, hwait⟩ hsubject
    obtain ⟨⟨m, hmay, _⟩, _⟩ := h.reachable hS i q _ hwait
    exact ⟨i, q, _, m, hsubject, hwait, hmay, fun g hact => h.acted hS hwait hact⟩
  cases a with
  | resume i c' | lose i c' e =>
    apply hacted i _ rfl
    simp only [System.taking] at htaking
    split at htaking
    · rename_i q s k r hwait
      cases htaking
      exact ⟨q, k, r, hwait⟩
    · cases htaking
  | arrive q | reject i e | environment x => cases htaking

/-- What a run leaves in place of the store it starts from, where that needs what the requests have
found. -/
theorem Rechecks.store_of_run (h : V.Rechecks D ok look act knows holds) {I : σ → Prop}
    {S₀ : System St Rows ε ι ρ σ} {as : List (Move ε ι κ η)} (hS₀ : V.machine.ReachableIf ok S₀)
    (hI₀ : I S₀.store) (has : V.machine.RunIf ok S₀ as S)
    (hrun : ∀ (S : System St Rows ε ι ρ σ) (a : Move ε ι κ η) q m st c rows s', ok S a →
      S.taking a = some (st, c) → (D q).may m st → (∀ g, act g st → holds g q S.store) → I S.store →
      V.run S.store c st = .ok (rows, s') → I s')
    (henv : ∀ (S : System St Rows ε ι ρ σ) x s', ok S (.environment x) → I S.store →
      V.environment S.store x = some s' → I s') : I S.store := by
  have hboth : V.machine.ReachableIf ok S ∧ I S.store := by
    apply has.invariant (I := fun S => V.machine.ReachableIf ok S ∧ I S.store) ⟨hS₀, hI₀⟩
    rintro S a T ⟨hreach, hI⟩ hok hstep
    refine ⟨hreach.trans (.single hok hstep), ?_⟩
    have heffect : ∀ st c rows s', S.taking a = some (st, c) → V.run S.store c st = .ok (rows, s') →
        I s' := by
      intro st c rows s' htaking heff
      obtain ⟨_, q, _, m, _, _, hmay, hholds⟩ := h.taken hreach htaking
      exact hrun S a q m st c rows s' hok htaking hmay hholds hI heff
    cases moved_of_step hstep with
    | arrived q => exact hI
    | answered hwait heff => exact heffect _ _ _ _ (by simp only [System.taking, hwait]) heff
    | refused _ _ => exact hI
    | rejected _ => exact hI
    | lost hwait heff => exact heffect _ _ _ _ (by simp only [System.taking, hwait]) heff
    | around heff => exact henv S _ _ hok hI heff
  exact hboth.2

theorem Rechecks.store_invariant (h : V.Rechecks D ok look act knows holds) {I : σ → Prop}
    (hS : V.machine.ReachableIf ok S) (hfresh : ∀ s, V.fresh s → I s)
    (hrun : ∀ (S : System St Rows ε ι ρ σ) (a : Move ε ι κ η) q m st c rows s', ok S a →
      S.taking a = some (st, c) → (D q).may m st → (∀ g, act g st → holds g q S.store) → I S.store →
      V.run S.store c st = .ok (rows, s') → I s')
    (henv : ∀ (S : System St Rows ε ι ρ σ) x s', ok S (.environment x) → I S.store →
      V.environment S.store x = some s' → I s') : I S.store := by
  obtain ⟨S₀, as, hS₀, has⟩ := hS
  exact h.store_of_run ⟨S₀, [], hS₀, .nil S₀⟩ (hfresh _ hS₀.1) has hrun henv

end Hill90.Service
