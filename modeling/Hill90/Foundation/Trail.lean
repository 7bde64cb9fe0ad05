import Mathlib.Data.List.Basic
import Hill90.Foundation.Program

/-! # Whole runs of a program

A run follows a program from its first statement to its end, through a state that each answer
takes a step in.  Unlike a play, the step sees which error a statement came back with, so that
what a program does about one error and not about another can be told from the state.
-/

namespace Hill90

namespace Program

variable {St : Type} {Rows : St → Type} {ε α β τ : Type}

inductive Runs (R : τ → (s : St) → Except ε (Rows s) → τ → Prop) :
    Program St Rows ε α → τ → Except ε α → τ → Prop where
  | reply (a : α) (t : τ) : Runs R (.reply a) t (.ok a) t
  | raise (e : ε) (t : τ) : Runs R (.raise e) t (.error e) t
  | answered {s : St} {k : Rows s → Program St Rows ε α} {r : ε → Program St Rows ε α} {rows : Rows s}
      {t u v : τ} {result : Except ε α} (step : R t s (.ok rows) u) (rest : Runs R (k rows) u result v) :
      Runs R (.await s k r) t result v
  | rejected {s : St} {k : Rows s → Program St Rows ε α} {r : ε → Program St Rows ε α} {e : ε}
      {t u v : τ} {result : Except ε α} (step : R t s (.error e) u) (rest : Runs R (r e) u result v) :
      Runs R (.await s k r) t result v

/-- However its statements are answered, the program ends as `Q` and `E` say. -/
def Ensures (R : τ → (s : St) → Except ε (Rows s) → τ → Prop) :
    Program St Rows ε α → (α → τ → Prop) → (ε → τ → Prop) → τ → Prop
  | .reply a, Q, _, t => Q a t
  | .raise e, _, E, t => E e t
  | .await s k r, Q, E, t =>
    (∀ rows u, R t s (.ok rows) u → (k rows).Ensures R Q E u) ∧
      ∀ e u, R t s (.error e) u → (r e).Ensures R Q E u

variable {R : τ → (s : St) → Except ε (Rows s) → τ → Prop} {Q Q' : α → τ → Prop}
  {E E' : ε → τ → Prop} {t u : τ}

theorem Ensures.of_runs {p : Program St Rows ε α} {result : Except ε α} (h : Ensures R p Q E t)
    (hrun : Runs R p t result u) :
    (∀ a, result = .ok a → Q a u) ∧ ∀ e, result = .error e → E e u := by
  induction hrun with
  | reply a t =>
    constructor
    · rintro a' ⟨⟩
      exact h
    · rintro e ⟨⟩
  | raise e t =>
    constructor
    · rintro a ⟨⟩
    · rintro e' ⟨⟩
      exact h
  | answered step _ ih => exact ih (h.1 _ _ step)
  | rejected step _ ih => exact ih (h.2 _ _ step)

@[simp] theorem ensures_pure (a : α) :
    Ensures R (pure a : Program St Rows ε α) Q E t ↔ Q a t := Iff.rfl

@[simp] theorem ensures_throw (e : ε) :
    Ensures R (throw e : Program St Rows ε α) Q E t ↔ E e t := Iff.rfl

theorem Ensures.mono {p : Program St Rows ε α} (h : Ensures R p Q E t)
    (hQ : ∀ a t, Q a t → Q' a t) (hE : ∀ e t, E e t → E' e t) : Ensures R p Q' E' t := by
  induction p generalizing t with
  | reply a => exact hQ a t h
  | raise e => exact hE e t h
  | await s k r ihk ihr =>
    exact ⟨fun rows u hu => ihk rows (h.1 rows u hu), fun e u hu => ihr e (h.2 e u hu)⟩

theorem Ensures.and {p : Program St Rows ε α} (h : Ensures R p Q E t) (h' : Ensures R p Q' E' t) :
    Ensures R p (fun a t => Q a t ∧ Q' a t) (fun e t => E e t ∧ E' e t) t := by
  induction p generalizing t with
  | reply a => exact ⟨h, h'⟩
  | raise e => exact ⟨h, h'⟩
  | await s k r ihk ihr =>
    exact ⟨fun rows u hu => ihk rows (h.1 rows u hu) (h'.1 rows u hu),
      fun e u hu => ihr e (h.2 e u hu) (h'.2 e u hu)⟩

theorem ensures_bind (p : Program St Rows ε α) (f : α → Program St Rows ε β) {Q : β → τ → Prop} :
    Ensures R (p >>= f) Q E t ↔ Ensures R p (fun a => Ensures R (f a) Q E) E t := by
  induction p generalizing t with
  | reply a => exact Iff.rfl
  | raise e => exact Iff.rfl
  | await s k r ihk ihr =>
    constructor
    · rintro ⟨hrows, herr⟩
      exact ⟨fun rows u h => (ihk rows).mp (hrows rows u h), fun e u h => (ihr e).mp (herr e u h)⟩
    · rintro ⟨hrows, herr⟩
      exact ⟨fun rows u h => (ihk rows).mpr (hrows rows u h), fun e u h => (ihr e).mpr (herr e u h)⟩

theorem ensures_tryCatch (p : Program St Rows ε α) (h : ε → Program St Rows ε α) :
    Ensures R (tryCatch p h) Q E t ↔ Ensures R p Q (fun e => Ensures R (h e) Q E) t := by
  change Ensures R (p.tryCatch h) Q E t ↔ _
  induction p generalizing t with
  | reply a => exact Iff.rfl
  | raise e => exact Iff.rfl
  | await s k r ihk ihr =>
    constructor
    · rintro ⟨hrows, herr⟩
      exact ⟨fun rows u h => (ihk rows).mp (hrows rows u h), fun e u h => (ihr e).mp (herr e u h)⟩
    · rintro ⟨hrows, herr⟩
      exact ⟨fun rows u h => (ihk rows).mpr (hrows rows u h), fun e u h => (ihr e).mpr (herr e u h)⟩

/-- What a program yields whatever the answers, it is ensured to reply. -/
theorem Yields.ensures {P : α → Prop} {p : Program St Rows ε α}
    (h : Yields (fun _ _ => True) P p) : Ensures R p (fun a _ => P a) (fun _ _ => True) t := by
  induction p generalizing t with
  | reply a => exact h
  | raise e => trivial
  | await s k r ihk ihr =>
    exact ⟨fun rows u _ => ihk rows (h.1 rows trivial), fun e u _ => ihr e (h.2 e)⟩

theorem ensures_then {p : Program St Rows ε α} {f : α → Program St Rows ε β} {Q : β → τ → Prop}
    (P : α → τ → Prop) (hp : Ensures R p P E t) (hf : ∀ a t, P a t → Ensures R (f a) Q E t) :
    Ensures R (p >>= f) Q E t :=
  (ensures_bind p f).mpr (hp.mono hf fun _ _ he => he)

theorem ensures_ask {s : St} {f : Rows s → Program St Rows ε β} {Q : β → τ → Prop}
    (hrows : ∀ rows u, R t s (.ok rows) u → Ensures R (f rows) Q E u)
    (herr : ∀ e u, R t s (.error e) u → E e u) : Ensures R (query s >>= f) Q E t := ⟨hrows, herr⟩

theorem ensures_ite {c : Prop} [Decidable c] {p q : Program St Rows ε α}
    (hp : c → Ensures R p Q E t) (hq : ¬c → Ensures R q Q E t) :
    Ensures R (if c then p else q) Q E t := by
  split
  · exact hp ‹_›
  · exact hq ‹_›

theorem Only.ensures {A : St → Prop} {P : τ → Prop} {p : Program St Rows ε α} (h : Only A p)
    (hA : ∀ t s answer u, P t → A s → R t s answer u → P u) (ht : P t) :
    Ensures R p (fun _ => P) (fun _ => P) t := by
  induction p generalizing t with
  | reply a => exact ht
  | raise e => exact ht
  | await s k r ihk ihr =>
    exact ⟨fun rows u hu => ihk rows (h.2.1 rows) (hA t s _ u ht h.1 hu),
      fun e u hu => ihr e (h.2.2 e) (hA t s _ u ht h.1 hu)⟩

theorem Runs.bind {p : Program St Rows ε α} {f : α → Program St Rows ε β} {a : α}
    {result : Except ε β} {v : τ} (hp : Runs R p t (.ok a) u) (hf : Runs R (f a) u result v) :
    Runs R (p >>= f) t result v := by
  generalize hres : (Except.ok a : Except ε α) = res at hp
  induction hp with
  | reply a' t =>
    cases hres
    exact hf
  | raise e t => cases hres
  | answered step _ ih => exact .answered step (ih hf hres)
  | rejected step _ ih => exact .rejected step (ih hf hres)

end Program

/-- A statement and what it came back with. -/
abbrev Said (St : Type) (Rows : St → Type) (ε : Type) := (s : St) × Except ε (Rows s)

/-- The state of a run that only writes down what was said. -/
def Heard {St : Type} {Rows : St → Type} {ε : Type} (t : List (Said St Rows ε)) (s : St)
    (answer : Except ε (Rows s)) (u : List (Said St Rows ε)) : Prop := u = t ++ [⟨s, answer⟩]

end Hill90
