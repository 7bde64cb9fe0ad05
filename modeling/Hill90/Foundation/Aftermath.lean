import Hill90.Foundation.Fate
import Hill90.Foundation.Trail

/-! # What a failed program leaves

A program runs against a pattern of outcomes.  It is `Hurt` when one of its statements comes back
in a way that counts as harm: with an error, say, while there is something in the store that an
error should not leave, the statement's own effect included.
-/

namespace Hill90

variable {St : Type} {Rows : St → Type} {ε α β σ κ : Type}

namespace Program

variable (run : σ → κ → (s : St) → Except ε (Rows s × σ)) (rest : κ)
  (allowed : Outcome κ ε → Prop) (harm : (s : St) → Except ε (Rows s) → σ → Prop)

/-- A statement comes back harmfully. -/
def Hurt : Program St Rows ε α → σ → List (Outcome κ ε) → Prop
  | .reply _, _, _ => False
  | .raise _, _, _ => False
  | .await s k r, t, pattern =>
    match (pattern.headD (.answered rest)).settle run t s with
    | (.ok rows, t') => harm s (.ok rows) t' ∨ (k rows).Hurt t' pattern.tail
    | (.error e, t') => harm s (.error e) t' ∨ (r e).Hurt t' pattern.tail

structure Attempt (σ : Type) where
  store : σ
  hurt : Prop

def Tries (t : Attempt σ) (s : St) (answer : Except ε (Rows s)) (u : Attempt σ) : Prop :=
  (∃ o : Outcome κ ε, allowed o ∧ o.settle run t.store s = (answer, u.store)) ∧
    (u.hurt ↔ t.hurt ∨ harm s answer u.store)

variable {run rest allowed harm} {Q : α → Attempt σ → Prop} {E : ε → Attempt σ → Prop}

def Left (Q : α → Attempt σ → Prop) (E : ε → Attempt σ → Prop) (hurt : Prop) :
    Log St Rows σ × Except ε α → Prop
  | (t, .ok a) => Q a ⟨t.store, hurt⟩
  | (t, .error e) => E e ⟨t.store, hurt⟩

variable (run rest) in
/-- A play of a statement is the play of what follows its answer. -/
theorem play_await (s : St) (k : Rows s → Program St Rows ε α) (r : ε → Program St Rows ε α)
    (t : Log St Rows σ) (pattern : List (Outcome κ ε)) :
    ∃ event, (await s k r).play run rest t pattern =
      match (pattern.headD (.answered rest)).settle run t.store s with
      | (.ok rows, store) => (k rows).play run rest (t.add event store) pattern.tail
      | (.error e, store) => (r e).play run rest (t.add event store) pattern.tail := by
  cases hout : pattern.headD (.answered rest) with
  | failed e => exact ⟨.failed s, by rw [play, hout]; rfl⟩
  | answered c =>
    cases hrun : run t.store c s with
    | ok result =>
      exact ⟨.answered s result.1, by simp only [play, hout, Outcome.settle, hrun]⟩
    | error e => exact ⟨.failed s, by simp only [play, hout, Outcome.settle, hrun]⟩
  | lost c e =>
    cases hrun : run t.store c s with
    | ok result => exact ⟨.lost s, by simp only [play, hout, Outcome.settle, hrun]⟩
    | error e => exact ⟨.failed s, by simp only [play, hout, Outcome.settle, hrun]⟩

variable (rest) in
theorem Ensures.left {p : Program St Rows ε α} {t : Log St Rows σ} {H : Prop}
    (h : Ensures (Tries run allowed harm) p Q E ⟨t.store, H⟩) (hrest : allowed (.answered rest))
    (pattern : List (Outcome κ ε)) (hpattern : ∀ o ∈ pattern, allowed o) :
    Left Q E (H ∨ Hurt run rest harm p t.store pattern) (p.play run rest t pattern) := by
  induction p generalizing t H pattern with
  | reply a => simpa [Left, play, Hurt, Ensures] using h
  | raise e => simpa [Left, play, Hurt, Ensures] using h
  | await s k r ihk ihr =>
    have htail : ∀ o ∈ pattern.tail, allowed o := fun o ho => hpattern o (List.mem_of_mem_tail ho)
    have hhead : allowed (pattern.headD (.answered rest)) := by
      cases pattern with
      | nil => exact hrest
      | cons o pattern => exact hpattern o (by simp)
    obtain ⟨event, hplay⟩ := play_await run rest s k r t pattern
    rw [hplay]
    cases hsettle : (pattern.headD (.answered rest)).settle run t.store s with
    | mk answer store =>
      have hstep : Tries run allowed harm ⟨t.store, H⟩ s answer ⟨store, H ∨ harm s answer store⟩ :=
        ⟨⟨_, hhead, hsettle⟩, Iff.rfl⟩
      cases answer with
      | ok rows =>
        have hnext := ihk rows (t := t.add event store) (h.1 rows _ hstep) pattern.tail htail
        simp only [Hurt, hsettle, ← or_assoc]
        exact hnext
      | error e =>
        have hnext := ihr e (t := t.add event store) (h.2 e _ hstep) pattern.tail htail
        simp only [Hurt, hsettle, ← or_assoc]
        exact hnext

section Bare

variable {t : Attempt σ} {marked : σ → Prop}

/-- An error while the store is marked. -/
def failing (marked : σ → Prop) (s : St) (answer : Except ε (Rows s)) (t : σ) : Prop :=
  (∃ e, answer = .error e) ∧ marked t

/-- The program raises nothing of its own and catches no error. -/
def Bare : Program St Rows ε α → Prop
  | .reply _ => True
  | .raise _ => False
  | .await _ k r => (∀ rows, (k rows).Bare) ∧ ∀ e, r e = .raise e

theorem bare_pure (a : α) : (pure a : Program St Rows ε α).Bare := trivial

theorem bare_query (s : St) : (query s : Program St Rows ε (Rows s)).Bare :=
  ⟨fun _ => trivial, fun _ => rfl⟩

theorem bare_bind {p : Program St Rows ε α} {f : α → Program St Rows ε β} (hp : p.Bare)
    (hf : ∀ a, (f a).Bare) : (p >>= f).Bare := by
  induction p with
  | reply a => exact hf a
  | raise e => exact hp.elim
  | await s k r ihk _ =>
    refine ⟨fun rows => ihk rows (hp.1 rows), fun e => ?_⟩
    change (r e).bind f = .raise e
    rw [hp.2 e]
    rfl

theorem bare_ite {c : Prop} [Decidable c] {p q : Program St Rows ε α} (hp : c → p.Bare)
    (hq : ¬c → q.Bare) : (if c then p else q).Bare := by
  split
  · exact hp ‹_›
  · exact hq ‹_›

theorem bare_forM {δ : Type} {xs : List δ} {f : δ → Program St Rows ε PUnit}
    (hf : ∀ x ∈ xs, (f x).Bare) : (xs.forM f).Bare := by
  induction xs with
  | nil => trivial
  | cons x xs ih =>
    exact bare_bind (hf x (by simp)) fun _ => ih fun y hy => hf y (List.mem_cons_of_mem x hy)

/-- A program that catches nothing ends with the first error: it is hurt by it exactly if the
store is marked then. -/
theorem Bare.ensures {p : Program St Rows ε α} (h : p.Bare) (ht : ¬t.hurt) :
    Ensures (Tries run allowed (failing marked)) p (fun _ u => ¬u.hurt)
      (fun _ u => u.hurt ↔ marked u.store) t := by
  induction p generalizing t with
  | reply a => exact ht
  | raise e => exact h.elim
  | await s k r ihk _ =>
    refine ⟨fun rows u hu => ihk rows (h.1 rows) ?_, fun e u hu => ?_⟩
    · rw [hu.2]
      simpa [failing] using ht
    · rw [h.2 e]
      change u.hurt ↔ marked u.store
      rw [hu.2]
      simp [ht, failing]

end Bare

end Program

end Hill90
