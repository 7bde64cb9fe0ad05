import Mathlib.Data.Set.Card
import Hill90.Foundation.Interleaving

/-! # Requests that have passed a check

Between a check and what it permits a request holds a permit.  How many requests hold one grows
only where a check is passed, and falls where a permit is used.
-/

namespace Hill90

variable {St : Type} {Rows : St → Type} {ε ι ρ σ κ η : Type}

/-- The requests that may still use what `check` permits without another check. -/
def holders (returns : (s : St) → Rows s → Prop) (check use : St → Prop) (S : System St Rows ε ι ρ σ) :
    Set ℕ :=
  {i | ∃ q p, S.requests i = some (q, p) ∧ p.Reaches returns check use}

variable {returns : (s : St) → Rows s → Prop} {check use : St → Prop} {S : System St Rows ε ι ρ σ}
  {i : ℕ} {q : ι} {p : Program St Rows ε ρ} {store : σ}

theorem finite_holders (hlater : ∀ j, S.arrivals ≤ j → S.requests j = none) :
    (holders returns check use S).Finite := by
  refine (Set.finite_lt_nat S.arrivals).subset fun j hj => ?_
  obtain ⟨q, p, hp, _⟩ := hj
  by_contra hle
  rw [hlater j (not_lt.mp hle)] at hp
  cases hp

theorem holders_enter (hp : ¬p.Reaches returns check use) :
    holders returns check use (S.enter q p) ⊆ holders returns check use S := by
  rintro j ⟨q', p', hj, hreaches⟩
  rw [System.enter_requests] at hj
  split at hj
  · cases hj
    exact absurd hreaches hp
  · exact ⟨q', p', hj, hreaches⟩

/-- The other requests hold what they held. -/
theorem holders_proceed :
    holders returns check use (S.proceed i store q p) \ {i} ⊆ holders returns check use S \ {i} := by
  rintro j ⟨⟨q', p', hj, hreaches⟩, hne⟩
  rw [System.proceed_requests, if_neg (by simpa using hne)] at hj
  exact ⟨⟨q', p', hj, hreaches⟩, hne⟩

theorem not_mem_holders_proceed (hp : ¬p.Reaches returns check use) :
    i ∉ holders returns check use (S.proceed i store q p) := by
  rintro ⟨q', p', hj, hreaches⟩
  rw [System.proceed_requests, if_pos rfl] at hj
  cases hj
  exact hp hreaches

theorem ncard_holders_proceed_le (hfinite : (holders returns check use S).Finite)
    (hp : p.Reaches returns check use → i ∈ holders returns check use S) :
    (holders returns check use (S.proceed i store q p)).ncard ≤ (holders returns check use S).ncard := by
  refine Set.ncard_le_ncard (fun j hj => ?_) hfinite
  by_cases hji : j = i
  · subst hji
    obtain ⟨q', p', hj', hreaches⟩ := hj
    rw [System.proceed_requests, if_pos rfl] at hj'
    cases hj'
    exact hp hreaches
  · exact (holders_proceed ⟨hj, hji⟩).1

theorem ncard_holders_proceed_lt (hfinite : (holders returns check use S).Finite)
    (hi : i ∈ holders returns check use S) (hp : ¬p.Reaches returns check use) :
    (holders returns check use (S.proceed i store q p)).ncard < (holders returns check use S).ncard := by
  refine Set.ncard_lt_ncard ⟨fun j hj => ?_, fun hle => not_mem_holders_proceed hp (hle hi)⟩ hfinite
  have hji : j ≠ i := by
    rintro rfl
    exact not_mem_holders_proceed hp hj
  exact (holders_proceed ⟨hj, hji⟩).1

theorem ncard_holders_proceed_le_succ (hfinite : (holders returns check use S).Finite) :
    (holders returns check use (S.proceed i store q p)).ncard ≤
      (holders returns check use S \ {i}).ncard + 1 := by
  have hsub : holders returns check use (S.proceed i store q p) ⊆
      insert i (holders returns check use S \ {i}) := by
    intro j hj
    by_cases hji : j = i
    · exact .inl hji
    · exact .inr (holders_proceed ⟨hj, hji⟩)
  exact (Set.ncard_le_ncard hsub (hfinite.sdiff.insert i)).trans (Set.ncard_insert_le _ _)

end Hill90
