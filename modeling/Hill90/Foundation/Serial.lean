import Hill90.Foundation.Interleaving
import Hill90.Foundation.Play

/-! # Requests one after another

A service whose requests do not overlap.  Each plays alone against a pattern of outcomes,
and the store may change between two of them.  What every request leaves behind when only
some statements come back with an error is a weakest precondition over the store.
-/

namespace Hill90

variable {St : Type} {Rows : St → Type} {ε ι ρ α σ κ η : Type}

def Event.failure? : Event St Rows → Option St
  | .answered .. => none
  | .failed s | .lost s => some s

def Log.failures (t : Log St Rows σ) : List St := t.trace.filterMap Event.failure?

/-- What a statement does to the store, where only those of `good` come back with an error. -/
inductive Admitted (run : σ → κ → (s : St) → Except ε (Rows s × σ)) (good : St → Prop) (store : σ) :
    (s : St) → Option (Rows s) → σ → Prop where
  | answered {s : St} {c : κ} {rows : Rows s} {store' : σ} (effect : run store c s = .ok (rows, store')) :
    Admitted run good store s (some rows) store'
  | failed {s : St} (hgood : good s) : Admitted run good store s none store
  | lost {s : St} {c : κ} {rows : Rows s} {store' : σ} (hgood : good s)
      (effect : run store c s = .ok (rows, store')) : Admitted run good store s none store'

namespace Program

variable {run : σ → κ → (s : St) → Except ε (Rows s × σ)} {rest : κ} {good : St → Prop}

theorem trace_prefix_play (p : Program St Rows ε α) (t : Log St Rows σ) (pattern : List (Outcome κ ε)) :
    t.trace <+: (p.play run rest t pattern).1.trace := by
  induction p generalizing t pattern with
  | reply a => exact List.prefix_rfl
  | raise e => exact List.prefix_rfl
  | await s k r ihk ihr =>
    have hadd : ∀ (e : Event St Rows) (store : σ), t.trace <+: (t.add e store).trace :=
      fun _ _ => List.prefix_append _ _
    rw [play]
    split
    · split
      · exact (hadd _ _).trans (ihk _ _ _)
      · exact (hadd _ _).trans (ihr _ _ _)
    · exact (hadd _ _).trans (ihr _ _ _)
    · split
      · exact (hadd _ _).trans (ihr _ _ _)
      · exact (hadd _ _).trans (ihr _ _ _)

/-- What a play ends in, when only statements of `good` came back with an error in it. -/
theorem Always.ended {p : Program St Rows ε α} {t : Log St Rows σ} {Q : α → σ → Prop}
    {E : ε → σ → Prop} (h : Always (Admitted run good) p Q E t.store) (pattern : List (Outcome κ ε))
    (hgood : ∀ s ∈ (p.play run rest t pattern).1.failures, good s) :
    Ended (fun a (t : Log St Rows σ) => Q a t.store) (fun e t => E e t.store)
      (p.play run rest t pattern) := by
  induction p generalizing t pattern with
  | reply a => exact h
  | raise e => exact h
  | await s k r ihk ihr =>
    obtain ⟨hrows, herr⟩ := h
    have hlast : ∀ (q : Program St Rows ε α) (e : Event St Rows) (store : σ) pattern',
        e.failure? = some s → (∀ s' ∈ (q.play run rest (t.add e store) pattern').1.failures, good s') →
        good s := by
      intro q e store pattern' he hall
      apply hall
      refine List.mem_filterMap.mpr ⟨e, (trace_prefix_play q _ _).subset ?_, he⟩
      exact List.mem_append_right _ (List.mem_singleton_self _)
    rw [Program.play] at hgood ⊢
    split at hgood
    · split at hgood
      · exact ihk _ (hrows _ _ (.answered ‹_›)) _ hgood
      · exact ihr _ (t := t.add (.failed s) t.store) (herr _ _ (.failed (hlast _ _ _ _ rfl hgood))) _ hgood
    · exact ihr _ (t := t.add (.failed s) t.store) (herr _ _ (.failed (hlast _ _ _ _ rfl hgood))) _ hgood
    · split at hgood
      · exact ihr _ (herr _ _ (.lost (hlast _ _ _ _ rfl hgood) ‹_›)) _ hgood
      · exact ihr _ (t := t.add (.failed s) t.store) (herr _ _ (.failed (hlast _ _ _ _ rfl hgood))) _ hgood

end Program

/-- A request with the outcomes of its statements, or a change from elsewhere. -/
inductive Call (κ ε ι η : Type) where
  | request (q : ι) (pattern : List (Outcome κ ε))
  | environment (x : η)

namespace Service

variable (V : Service St Rows ε ι ρ σ κ η) (rest : κ)

def serve (s : σ) (q : ι) (pattern : List (Outcome κ ε)) : Log St Rows σ × Except ε ρ :=
  (V.handler q).play V.run rest ⟨[], s⟩ pattern

def serial : Machine σ (Call κ ε ι η) where
  initial := V.fresh
  step s
    | .request q pattern => some (V.serve rest s q pattern).1.store
    | .environment x => V.environment s x

variable {V rest}

theorem ended_of_serve {s : σ} {q : ι} {pattern : List (Outcome κ ε)} {good : St → Prop}
    {Q : ρ → σ → Prop} {E : ε → σ → Prop} (h : (V.handler q).Always (Admitted V.run good) Q E s)
    (hgood : ∀ st ∈ (V.serve rest s q pattern).1.failures, good st) :
    Program.Ended (fun a (t : Log St Rows σ) => Q a t.store) (fun e t => E e t.store)
      (V.serve rest s q pattern) :=
  Program.Always.ended (t := ⟨[], s⟩) h pattern hgood

theorem serve_of_always {s : σ} {q : ι} {pattern : List (Outcome κ ε)} {good : St → Prop}
    {P : σ → Prop} (h : (V.handler q).Always (Admitted V.run good) (fun _ => P) (fun _ => P) s)
    (hgood : ∀ st ∈ (V.serve rest s q pattern).1.failures, good st) :
    P (V.serve rest s q pattern).1.store := by
  have hended := ended_of_serve h hgood
  revert hended
  rw [serve]
  generalize (V.handler q).play V.run rest ⟨[], s⟩ pattern = ending
  obtain ⟨t, result⟩ := ending
  cases result <;> exact id

end Service

end Hill90
