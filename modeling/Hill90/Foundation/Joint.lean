import Hill90.Foundation.Interleaving

/-! # What the modes of all requests keep together

An invariant of the store and of the modes of all requests in flight, over the runs whose moves
are allowed.
-/

namespace Hill90

variable {St : Type} {Rows : St → Type} {ε ι ρ σ κ η μ : Type}

namespace Service

/-- The obligations: every effect an allowed move may have keeps `G`, whether its answer arrives or
is lost. -/
structure Joint (V : Service St Rows ε ι ρ σ κ η) (D : Discipline St Rows ε μ)
    (ok : System St Rows ε ι ρ σ → Move ε ι κ η → Prop) (start : ι → μ) (answers : ι → ρ → μ → Prop)
    (G : σ → (ℕ → Option μ) → Prop) : Prop where
  handler : ∀ S q, ok S (.arrive q) → (V.handler q).Meets D (answers q) (fun _ _ => True) (start q)
  fresh : ∀ s, V.fresh s → G s fun _ => none
  arrive : ∀ s modes i q, G s modes → modes i = none → G s (Function.update modes i (some (start q)))
  effect : ∀ S a i c st rows s' modes m, ok S a → S.taking a = some (st, c) → G S.store modes →
    modes i = some m → D.may m st → V.run S.store c st = .ok (rows, s') → D.returns st rows ∧
      G s' (Function.update modes i (some (D.returned m st rows))) ∧
      ∀ e, G s' (Function.update modes i (some (D.rejected m st e)))
  fail : ∀ s modes i m st e, G s modes → modes i = some m → D.may m st →
    G s (Function.update modes i (some (D.rejected m st e)))
  around : ∀ S modes x s', ok S (.environment x) → G S.store modes →
    V.environment S.store x = some s' → G s' modes

variable {V : Service St Rows ε ι ρ σ κ η} {D : Discipline St Rows ε μ}
  {ok : System St Rows ε ι ρ σ → Move ε ι κ η → Prop} {start : ι → μ} {answers : ι → ρ → μ → Prop}
  {G : σ → (ℕ → Option μ) → Prop} {S T : System St Rows ε ι ρ σ} {a : Move ε ι κ η}

theorem Joint.step (h : V.Joint D ok start answers G) {modes : ℕ → Option μ}
    (hfollows : Follows D answers S modes) (hG : G S.store modes) (hok : ok S a)
    (hstep : V.step S a = some T) : ∃ modes', Follows D answers T modes' ∧ G T.store modes' := by
  cases moved_of_step hstep with
  | arrived q =>
    have hnone : modes S.arrivals = none := hfollows.absent _ (hfollows.later _ (Nat.le_refl _))
    exact ⟨_, hfollows.enter (h.handler S q hok), h.arrive _ _ _ q hG hnone⟩
  | @answered i c q st k r rows store hwait heff =>
    obtain ⟨m, hm, hmay, hrows, _⟩ := hfollows.waiting hwait
    have htaking : S.taking (.resume i c : Move ε ι κ η) = some (st, c) := by
      simp only [System.taking, hwait]
    obtain ⟨hreturns, hreturned, _⟩ := h.effect _ _ i _ _ _ _ _ _ hok htaking hG hm hmay heff
    exact ⟨_, hfollows.proceed hwait (hrows _ hreturns), hreturned⟩
  | refused hwait _ =>
    obtain ⟨m, hm, hmay, _, herr⟩ := hfollows.waiting hwait
    exact ⟨_, hfollows.proceed hwait (herr _), h.fail _ _ _ _ _ _ hG hm hmay⟩
  | rejected hwait =>
    obtain ⟨m, hm, hmay, _, herr⟩ := hfollows.waiting hwait
    exact ⟨_, hfollows.proceed hwait (herr _), h.fail _ _ _ _ _ _ hG hm hmay⟩
  | @lost i c q st k r rows store e hwait heff =>
    obtain ⟨m, hm, hmay, _, herr⟩ := hfollows.waiting hwait
    have htaking : S.taking (.lose i c e : Move ε ι κ η) = some (st, c) := by
      simp only [System.taking, hwait]
    obtain ⟨_, _, hrejected⟩ := h.effect _ _ i _ _ _ _ _ _ hok htaking hG hm hmay heff
    exact ⟨_, hfollows.proceed hwait (herr _), hrejected e⟩
  | around heff =>
    exact ⟨modes, ⟨hfollows.later, hfollows.absent, hfollows.present⟩, h.around S _ _ _ hok hG heff⟩

/-- In every state that allowed moves reach, the requests have modes for which `G` holds. -/
theorem Joint.reachable (h : V.Joint D ok start answers G) (hS : V.machine.ReachableIf ok S) :
    ∃ modes, Follows D answers S modes ∧ G S.store modes := by
  apply hS.invariant (I := fun S => ∃ modes, Follows D answers S modes ∧ G S.store modes)
  · rintro S ⟨hfresh, hrequests, _⟩
    refine ⟨fun _ => none, ⟨fun i _ => by rw [hrequests], fun _ _ => rfl, fun i q p hi => ?_⟩,
      h.fresh _ hfresh⟩
    rw [hrequests] at hi
    cases hi
  · rintro S a T ⟨modes, hfollows, hG⟩ hok hstep
    exact h.step hfollows hG hok hstep

theorem Follows.replied {modes : ℕ → Option μ} {i : ℕ} {q : ι} {b : ρ} (h : Follows D answers S modes)
    (hi : S.requests i = some (q, .reply b)) : ∃ m, modes i = some m ∧ answers q b m := by
  obtain ⟨m, hm, hmeets⟩ := h.present i q _ hi
  exact ⟨m, hm, hmeets⟩

end Service

end Hill90
