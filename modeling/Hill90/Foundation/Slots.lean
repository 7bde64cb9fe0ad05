import Mathlib.Data.Set.Subsingleton
import Hill90.Foundation.Interleaving

/-! # Slots that are looked at before they are taken

A statement looks whether a slot is free, another one takes it, and between the two the
slot is held by nobody but the program that has passed the look.  If no look is passed
while the slot is taken or held, every slot has one occupant at most.
-/

namespace Hill90

/-- Who occupies a slot, the statements a program may pass to hold it, and those that take it. -/
structure Slots (St σ X : Type) where
  occupants : σ → X → Set ℕ
  allows : X → St → Prop
  opens : X → St → Prop

namespace Slots

open Service

variable {St : Type} {Rows : St → Type} {ε ι ρ σ κ η X : Type}

variable (L : Slots St σ X) (returns : (s : St) → Rows s → Prop)

/-- The program can still take the slot without another look. -/
def Holds (x : X) (p : Program St Rows ε ρ) : Prop :=
  p.Reaches returns (L.allows x) (L.opens x)

def Clear (S : System St Rows ε ι ρ σ) (i : ℕ) (x : X) : Prop :=
  L.occupants S.store x = ∅ ∧
    ∀ j q p, j ≠ i → S.requests j = some (q, p) → ¬L.Holds returns x p

/-- A slot has an occupant or a holder, not both and never two. -/
structure Exclusive (S : System St Rows ε ι ρ σ) : Prop where
  one : ∀ x, (L.occupants S.store x).Subsingleton
  clear : ∀ i q p x, S.requests i = some (q, p) → L.Holds returns x p → L.Clear returns S i x

variable {L returns}

theorem not_holds_of_ended {S : System St Rows ε ι ρ σ} {i : ℕ} {q : ι} {p : Program St Rows ε ρ}
    {x : X} (hended : S.ended i = true) (hi : S.requests i = some (q, p)) :
    ¬L.Holds returns x p := by
  simp only [System.ended, hi] at hended
  cases p with
  | await st k r => cases hended
  | _ => exact id

theorem exclusive_of_empty {S : System St Rows ε ι ρ σ} (hstore : ∀ x, L.occupants S.store x = ∅)
    (hrequests : S.requests = fun _ => none) : L.Exclusive returns S := by
  constructor
  · intro x
    rw [hstore x]
    exact Set.subsingleton_empty
  · intro i q p x hi
    rw [hrequests] at hi
    cases hi

theorem Exclusive.enter {S : System St Rows ε ι ρ σ} (h : L.Exclusive returns S) {q : ι}
    {p : Program St Rows ε ρ} (hp : ∀ x, ¬L.Holds returns x p) :
    L.Exclusive returns (S.enter q p) := by
  refine ⟨h.one, fun j q' p' x hj hholds => ?_⟩
  rw [System.enter_requests] at hj
  split at hj
  · cases hj
    exact absurd hholds (hp x)
  · obtain ⟨hempty, hnobody⟩ := h.clear j q' p' x hj hholds
    refine ⟨hempty, fun j' q'' p'' hne hj' => ?_⟩
    rw [System.enter_requests] at hj'
    split at hj'
    · cases hj'
      exact hp x
    · exact hnobody j' q'' p'' hne hj'

/-- A statement of request `i` takes a slot only for one, and its request holds only
slots that it held before or that are clear. -/
theorem Exclusive.proceed {S : System St Rows ε ι ρ σ} (h : L.Exclusive returns S) {i : ℕ} {q : ι}
    {st : St} {k : Rows st → Program St Rows ε ρ} {r : ε → Program St Rows ε ρ} {store : σ}
    {p : Program St Rows ε ρ} {new : ℕ} (hwait : S.requests i = some (q, .await st k r))
    (hstore : ∀ x, ∀ n ∈ L.occupants store x,
      n ∈ L.occupants S.store x ∨ (L.opens x st ∧ n = new))
    (hholds : ∀ x, L.Holds returns x p →
      ¬L.opens x st ∧ (L.Holds returns x (.await st k r) ∨ L.Clear returns S i x)) :
    L.Exclusive returns (S.proceed i store q p) := by
  have hopens : ∀ {x}, L.opens x st → L.Clear returns S i x :=
    fun hst => h.clear i q _ _ hwait (.inl hst)
  have hnone : ∀ {x n}, L.Clear returns S i x → n ∉ L.occupants S.store x := by
    intro x n hclear hn
    rw [hclear.1] at hn
    exact hn
  constructor
  · intro x n hn n' hn'
    obtain hold | ⟨hst, rfl⟩ := hstore x n hn
    · obtain hold' | ⟨hst, _⟩ := hstore x n' hn'
      · exact h.one x hold hold'
      · exact absurd hold (hnone (hopens hst))
    · obtain hold' | ⟨_, rfl⟩ := hstore x n' hn'
      · exact absurd hold' (hnone (hopens hst))
      · rfl
  · intro j q' p' x hj hheld
    -- in either case the slot was clear before for `j`, and `st` does not take it
    have hold : L.Clear returns S j x ∧ ¬L.opens x st ∧ (j ≠ i → ¬L.Holds returns x p) := by
      rw [System.proceed_requests] at hj
      split at hj
      · cases hj
        subst j
        obtain ⟨hnot, hold | hclear⟩ := hholds x hheld
        · exact ⟨h.clear i q _ x hwait hold, hnot, fun hne => absurd rfl hne⟩
        · exact ⟨hclear, hnot, fun hne => absurd rfl hne⟩
      · rename_i hne
        have hclear := h.clear j q' p' x hj hheld
        refine ⟨hclear, fun hst => ?_, fun _ hp => ?_⟩
        · exact hclear.2 i q _ (Ne.symm hne) hwait (.inl hst)
        · obtain ⟨_, hold | hclear'⟩ := hholds x hp
          · exact hclear.2 i q _ (Ne.symm hne) hwait hold
          · exact hclear'.2 j q' p' hne hj hheld
    obtain ⟨hclear, hnot, hother⟩ := hold
    constructor
    · rw [Set.eq_empty_iff_forall_notMem]
      intro n hn
      obtain hold | ⟨hst, _⟩ := hstore x n hn
      · rw [hclear.1] at hold
        exact hold
      · exact hnot hst
    · intro j' q'' p'' hne hj'
      rw [System.proceed_requests] at hj'
      split at hj'
      · cases hj'
        subst j'
        exact hother (Ne.symm hne)
      · exact hclear.2 j' q'' p'' hne hj'

variable (V : Service St Rows ε ι ρ σ κ η) (L returns)

/-- The obligations of a protocol over slots: a new request holds none, a statement takes
one occupant in, and an error gives nothing that was not held. -/
structure Protocol (new : σ → St → ℕ) (follows : System St Rows ε ι ρ σ → Prop) : Prop where
  handler : ∀ q x, ¬L.Holds returns x (V.handler q)
  effect : ∀ s c st rows s', V.run s c st = .ok (rows, s') → ∀ x, ∀ n ∈ L.occupants s' x,
    n ∈ L.occupants s x ∨ (L.opens x st ∧ n = new s st)
  error : ∀ S i q st k r e x, follows S → S.requests i = some (q, .await st k r) →
    L.Holds returns x (r e) → ¬L.opens x st ∧ L.Holds returns x (.await st k r)
  around : ∀ s y s', V.environment s y = some s' → ∀ x, L.occupants s' x ⊆ L.occupants s x

variable {V L returns} {new : σ → St → ℕ} {follows : System St Rows ε ι ρ σ → Prop}
  {S T : System St Rows ε ι ρ σ} {a : Move ε ι κ η}

/-- A step keeps exclusion if the slots that an answer gives are clear or held already. -/
theorem Protocol.step (hV : L.Protocol returns V new follows) (h : L.Exclusive returns S)
    (hfollows : follows S)
    (hanswer : ∀ i c q st k r rows s' x, a = .resume i c → S.requests i = some (q, .await st k r) →
      V.run S.store c st = .ok (rows, s') → L.Holds returns x (k rows) →
        ¬L.opens x st ∧ (L.Holds returns x (.await st k r) ∨ L.Clear returns S i x))
    (hstep : V.step S a = some T) : L.Exclusive returns T := by
  have herror : ∀ {i q st k r e}, S.requests i = some (q, .await st k r) → ∀ x,
      L.Holds returns x (r e) →
        ¬L.opens x st ∧ (L.Holds returns x (.await st k r) ∨ L.Clear returns S i x) := by
    intro i q st k r e hwait x hheld
    obtain ⟨hnot, hold⟩ := hV.error S i q st k r e x hfollows hwait hheld
    exact ⟨hnot, .inl hold⟩
  have hsame : ∀ {st : St} (x : X), ∀ n ∈ L.occupants S.store x,
      n ∈ L.occupants S.store x ∨ (L.opens x st ∧ n = new S.store st) := fun _ _ hn => .inl hn
  cases moved_of_step hstep with
  | arrived q => exact h.enter (hV.handler q)
  | answered hwait heff =>
    exact h.proceed hwait (hV.effect _ _ _ _ _ heff)
      fun x => hanswer _ _ _ _ _ _ _ _ x rfl hwait heff
  | refused hwait _ => exact h.proceed hwait hsame (herror hwait)
  | rejected hwait => exact h.proceed hwait hsame (herror hwait)
  | lost hwait heff => exact h.proceed hwait (hV.effect _ _ _ _ _ heff) (herror hwait)
  | around heff =>
    have hsub := hV.around _ _ _ heff
    refine ⟨fun x => (h.one x).anti (hsub x), fun j q p x hj hheld => ?_⟩
    obtain ⟨hempty, hnobody⟩ := h.clear j q p x hj hheld
    exact ⟨Set.subset_eq_empty (hsub x) hempty, hnobody⟩

end Slots

end Hill90
