import Mathlib.Data.List.Sort
import Mathlib.Logic.Function.Basic
import Hill90.Foundation.AdvisoryLock
import Hill90.Foundation.Machine

/-! # The migrations at boot

`runMigrations` of the API and `run_migrations` of the knowledge service, in any number of
instances that boot against one database.  Each query may be answered, fail, or take effect
without an answer, and a session may end at any time.  The API asks for an advisory lock
first; the knowledge service relies on the primary key of `schema_migrations` alone.
-/

namespace Hill90.Boot

structure Directory (φ : Type) where
  entries : List φ
  nodup : entries.Nodup

/-- Where the runner of an instance is: the query it waits for, with the files that are left
to apply.  `leaving` and `ended` say whether the run went well. -/
inductive Phase (φ : Type) where
  | idle
  | locking
  | creating
  | selecting
  | beginning (file : φ) (rest : List φ)
  | executing (file : φ) (rest : List φ)
  | inserting (file : φ) (rest : List φ)
  | committing (file : φ) (rest : List φ)
  | rollingBack
  | leaving (ok : Bool)
  | ended (ok : Bool)
  deriving DecidableEq, Repr

/-- The client of an instance; `alive` as long as its session is. -/
structure Client (φ : Type) where
  phase : Phase φ := .idle
  alive : Bool := true

/-- `log` is what has been committed, by which instance: the effect of a file and its row in
`schema_migrations`.  `pending` are the rows of open transactions. -/
structure Database (φ : Type) where
  clients : ℕ → Client φ
  lock : AdvisoryLock ℕ
  log : List (ℕ × φ)
  pending : List (ℕ × φ)

inductive Move where
  | boot (i : ℕ)
  | answer (i : ℕ)
  | fail (i : ℕ)
  | lose (i : ℕ)
  | sever (i : ℕ)
  deriving DecidableEq, Repr

namespace Phase

variable {φ : Type}

def remaining : Phase φ → Option (List φ)
  | .beginning f t | .executing f t | .inserting f t | .committing f t => some (f :: t)
  | .leaving true | .ended true => some []
  | _ => none

def resume : List φ → Phase φ
  | [] => .leaving true
  | f :: t => .beginning f t

def onError : Phase φ → Phase φ
  | .executing .. | .inserting .. | .committing .. => .rollingBack
  | .leaving ok => .ended ok
  | .idle => .idle
  | .ended ok => .ended ok
  | _ => .leaving false

/-- Between the lock and its release. -/
def busy : Phase φ → Bool
  | .creating | .selecting | .beginning .. | .executing .. | .inserting .. | .committing ..
  | .rollingBack => true
  | .idle | .locking | .leaving _ | .ended _ => false

@[simp] theorem remaining_resume (t : List φ) : (resume t).remaining = some t := by
  cases t <;> rfl

end Phase

inductive Reply (σ : Type) where
  | waits
  | refused
  | done (s : σ)

namespace Database

variable {φ : Type}

def phase (D : Database φ) (i : ℕ) : Phase φ := (D.clients i).phase

def alive (D : Database φ) (i : ℕ) : Bool := (D.clients i).alive

def rows (D : Database φ) : List φ := D.log.map (·.2)

def enter (D : Database φ) (i : ℕ) (p : Phase φ) : Database φ :=
  { D with clients := Function.update D.clients i { D.clients i with phase := p } }

/-- Another transaction holds an uncommitted row for the file. -/
def blocked [DecidableEq φ] (D : Database φ) (i : ℕ) (f : φ) : Bool :=
  D.pending.any fun p => decide (p.2 = f) && decide (p.1 ≠ i)

def release (D : Database φ) (i : ℕ) : List (ℕ × φ) := D.pending.filter fun p => p.1 ≠ i

/-- The query an instance waits for, and where its answer leads; `files` are its own. -/
def perform [LinearOrder φ] (files : ℕ → List φ) (D : Database φ) (i : ℕ) : Reply (Database φ) :=
  match D.phase i with
  | .idle | .ended _ => .waits
  | .locking =>
    if (D.lock.tryLock i).1 then .done { D.enter i .creating with lock := (D.lock.tryLock i).2 }
    else .waits
  | .creating => .done (D.enter i .selecting)
  | .selecting => .done (D.enter i (.resume ((files i).filter (· ∉ D.rows))))
  | .beginning f t => .done (D.enter i (.executing f t))
  | .executing f t => .done (D.enter i (.inserting f t))
  | .inserting f t =>
    if D.blocked i f then .waits
    else if f ∈ D.rows then .refused
    else .done { D.enter i (.committing f t) with pending := (i, f) :: D.pending }
  | .committing f t =>
    .done { D.enter i (.resume t) with log := D.log ++ [(i, f)], pending := D.release i }
  | .rollingBack => .done { D.enter i (.leaving false) with pending := D.release i }
  | .leaving ok => .done { D.enter i (.ended ok) with lock := D.lock.unlock i }

def step [LinearOrder φ] (locks : Bool) (files : ℕ → List φ) (D : Database φ) : Move → Option (Database φ)
  | .boot i =>
    if D.phase i = .idle then some (D.enter i (if locks then .locking else .creating)) else none
  | .answer i =>
    if D.alive i then
      match D.perform files i with
      | .waits => none
      | .refused => some (D.enter i (D.phase i).onError)
      | .done D' => some D'
    else none
  | .fail i => some (D.enter i (D.phase i).onError)
  | .lose i =>
    if D.alive i then
      match D.perform files i with
      | .done D' => some (D'.enter i (D.phase i).onError)
      | .waits | .refused => none
    else none
  | .sever i =>
    some
      { D with
        clients := Function.update D.clients i { D.clients i with alive := false }
        lock := D.lock.endSession i
        pending := D.release i }

end Database

/-- The names of the `.sql` files, sorted. -/
def readMigrationFiles {φ : Type} [LinearOrder φ] (isSql : φ → Bool) (d : Directory φ) : List φ :=
  (d.entries.filter isSql).insertionSort (· ≤ ·)

def runner {φ : Type} [LinearOrder φ] (locks : Bool) (isSql : φ → Bool)
    (images : ℕ → Directory φ) : Machine (Database φ) Move where
  initial D := (∀ i, D.phase i = .idle) ∧ D.lock = none ∧ D.log = [] ∧ D.pending = []
  step := Database.step locks fun i => readMigrationFiles isSql (images i)

def runMigrations {φ : Type} [LinearOrder φ] (isSql : φ → Bool) (images : ℕ → Directory φ) :
    Machine (Database φ) Move := runner true isSql images

def run_migrations {φ : Type} [LinearOrder φ] (isSql : φ → Bool) (images : ℕ → Directory φ) :
    Machine (Database φ) Move := runner false isSql images

theorem readMigrationFiles_sorted {φ : Type} [LinearOrder φ] (isSql : φ → Bool) (d : Directory φ) :
    (readMigrationFiles isSql d).Pairwise (· < ·) := by
  have hle : (readMigrationFiles isSql d).Pairwise (· ≤ ·) :=
    List.pairwise_insertionSort _ _
  have hnodup : (readMigrationFiles isSql d).Nodup :=
    (List.perm_insertionSort _ _).nodup_iff.mpr (d.nodup.filter _)
  exact hle.imp₂ (fun _ _ hab hne => lt_of_le_of_ne hab hne) hnodup

namespace Database

variable {φ : Type} {files : ℕ → List φ} {D D' : Database φ} {i j : ℕ}

@[simp] theorem phase_enter (D : Database φ) (i j : ℕ) (p : Phase φ) :
    (D.enter i p).phase j = if j = i then p else D.phase j := by
  simp only [phase, enter, Function.update_apply]
  split <;> rfl

@[simp] theorem alive_enter (D : Database φ) (i j : ℕ) (p : Phase φ) :
    (D.enter i p).alive j = D.alive j := by
  simp only [alive, enter, Function.update_apply]
  split
  · rename_i h
    rw [h]
  · rfl

theorem mem_release {p : ℕ × φ} : p ∈ D.release i ↔ p ∈ D.pending ∧ p.1 ≠ i := by
  simp [release]

/-- A run that meets an error has nothing left to do, but for the release of its lock. -/
theorem onError_cases (p : Phase φ) :
    p.onError.remaining = none ∨ (∃ ok, p = .leaving ok ∧ p.onError = .ended ok) ∨
      (p.onError = p ∧ (p = .idle ∨ ∃ ok, p = .ended ok)) := by
  cases p <;> simp [Phase.onError, Phase.remaining]

theorem onError_ne_committing (p : Phase φ) (f : φ) (t : List φ) : p.onError ≠ .committing f t := by
  cases p <;> simp [Phase.onError]

theorem remaining_onError (p : Phase φ) :
    p.onError.remaining = none ∨ p.onError.remaining = p.remaining := by
  obtain hnone | ⟨ok, rfl, herror⟩ | ⟨hsame, _⟩ := onError_cases p
  · exact .inl hnone
  · rw [herror]
    cases ok with
    | false => exact .inl rfl
    | true => exact .inr rfl
  · exact .inr (congrArg _ hsame)

variable [LinearOrder φ]

/-- Each file has been committed once, after all the earlier ones of the image it came from;
what a run has left covers what is not recorded; an uncommitted row is new, and its own. -/
structure Kept (files : ℕ → List φ) (D : Database φ) : Prop where
  once : D.rows.Nodup
  ordered : ∀ pre i f post, D.log = pre ++ (i, f) :: post →
    ∀ g ∈ files i, g < f → g ∈ pre.map (·.2)
  sorted : ∀ i l, (D.phase i).remaining = some l → l.Pairwise (· < ·)
  covered : ∀ i l, (D.phase i).remaining = some l → ∀ g ∈ files i, g ∈ D.rows ∨ g ∈ l
  fresh : ∀ p ∈ D.pending, p.2 ∉ D.rows
  unique : ∀ p ∈ D.pending, ∀ q ∈ D.pending, p.2 = q.2 → p.1 = q.1
  holding : ∀ i f t, D.phase i = .committing f t → D.alive i = true → (i, f) ∈ D.pending

theorem Kept.enter (h : D.Kept files) {p : Phase φ}
    (hsorted : ∀ l, p.remaining = some l → l.Pairwise (· < ·))
    (hcovered : ∀ l, p.remaining = some l → ∀ g ∈ files i, g ∈ D.rows ∨ g ∈ l)
    (hholding : ∀ f t, p = .committing f t → D.alive i = true → (i, f) ∈ D.pending) :
    (D.enter i p).Kept files where
  once := h.once
  ordered := h.ordered
  sorted j l hl := by
    rw [phase_enter] at hl
    split at hl
    · exact hsorted l hl
    · exact h.sorted j l hl
  covered j l hl := by
    rw [phase_enter] at hl
    split at hl
    · rename_i hj
      subst hj
      exact hcovered l hl
    · exact h.covered j l hl
  fresh := h.fresh
  unique := h.unique
  holding j f t hp halive := by
    rw [phase_enter] at hp
    rw [alive_enter] at halive
    split at hp
    · rename_i hj
      subst hj
      exact hholding f t hp halive
    · exact h.holding j f t hp halive

/-- A phase with nothing left to do, or with what the one before it had. -/
theorem Kept.move (h : D.Kept files) {p : Phase φ}
    (hp : p.remaining = none ∨ p.remaining = (D.phase i).remaining)
    (hnot : ∀ f t, p ≠ .committing f t) : (D.enter i p).Kept files := by
  apply h.enter
  · intro l hl
    obtain hnone | hsame := hp
    · rw [hnone] at hl
      cases hl
    · exact h.sorted i l (hsame ▸ hl)
  · intro l hl
    obtain hnone | hsame := hp
    · rw [hnone] at hl
      cases hl
    · exact h.covered i l (hsame ▸ hl)
  · intro f t hft
    exact absurd hft (hnot f t)

theorem Kept.rollback (h : D.Kept files)
    (hnot : ∀ f t, D.phase i = .committing f t → D.alive i = false) :
    Kept files { D with pending := D.release i } where
  once := h.once
  ordered := h.ordered
  sorted := h.sorted
  covered := h.covered
  fresh p hp := h.fresh p (mem_release.mp hp).1
  unique p hp q hq := h.unique p (mem_release.mp hp).1 q (mem_release.mp hq).1
  holding j f t hj halive := by
    refine mem_release.mpr ⟨h.holding j f t hj halive, ?_⟩
    rintro rfl
    have hdead := hnot f t hj
    rw [alive] at hdead halive
    rw [hdead] at halive
    cases halive

theorem Kept.insert (h : D.Kept files) {f : φ} {t : List φ} (hphase : D.phase i = .inserting f t)
    (hblocked : D.blocked i f = false) (hnew : f ∉ D.rows) :
    Kept files { D.enter i (.committing f t) with pending := (i, f) :: D.pending } := by
  have hother : ∀ p ∈ D.pending, p.2 = f → p.1 = i := by
    intro p hp hpf
    have := List.any_eq_false.mp hblocked p hp
    simpa [hpf] using this
  have hfree : Kept files { D with pending := (i, f) :: D.pending } := by
    refine ⟨h.once, h.ordered, h.sorted, h.covered, ?_, ?_, ?_⟩
    · intro p hp
      obtain rfl | hp := List.mem_cons.mp hp
      · exact hnew
      · exact h.fresh p hp
    · intro p hp q hq hpq
      obtain rfl | hp := List.mem_cons.mp hp <;> obtain rfl | hq := List.mem_cons.mp hq
      · rfl
      · exact (hother q hq hpq.symm).symm
      · exact hother p hp hpq
      · exact h.unique p hp q hq hpq
    · intro j g u hj halive
      exact List.mem_cons_of_mem _ (h.holding j g u hj halive)
  have hremaining : (D.phase i).remaining = some (f :: t) := by rw [hphase]; rfl
  apply Kept.enter (D := { D with pending := (i, f) :: D.pending }) hfree
  · rintro l ⟨⟩
    exact h.sorted i _ hremaining
  · rintro l ⟨⟩
    exact h.covered i _ hremaining
  · rintro g u ⟨⟩ _
    exact List.mem_cons_self

theorem Kept.commit (h : D.Kept files) {f : φ} {t : List φ} (hphase : D.phase i = .committing f t)
    (halive : D.alive i = true) :
    Kept files
      { D.enter i (.resume t) with log := D.log ++ [(i, f)], pending := D.release i } := by
  have hheld := h.holding i f t hphase halive
  have hnew : f ∉ D.rows := h.fresh _ hheld
  have hremaining : (D.phase i).remaining = some (f :: t) := by rw [hphase]; rfl
  have hsorted := List.pairwise_cons.mp (h.sorted i _ hremaining)
  have hrows : (D.log ++ [(i, f)]).map (·.2) = D.rows ++ [f] := by simp [rows]
  have hdone : Kept files
      { D with
        clients := Function.update D.clients i { D.clients i with phase := .rollingBack }
        log := D.log ++ [(i, f)], pending := D.release i } := by
    have hmove : (D.enter i .rollingBack).Kept files := h.move (.inl rfl) (by simp)
    refine ⟨?_, ?_, hmove.sorted, ?_, ?_, ?_, ?_⟩
    · rw [rows, hrows, List.nodup_append]
      refine ⟨h.once, List.nodup_singleton f, ?_⟩
      rintro a ha b hb rfl
      exact hnew (List.mem_singleton.mp hb ▸ ha)
    · intro pre j g post hlog
      obtain rfl | ⟨post, last, rfl⟩ := List.eq_nil_or_concat post
      · obtain ⟨rfl, hlast⟩ := List.append_inj' hlog rfl
        cases hlast
        intro g' hg' hlt
        obtain hrow | hleft := h.covered i _ hremaining g' hg'
        · exact hrow
        · obtain rfl | hleft := List.mem_cons.mp hleft
          · exact absurd hlt (lt_irrefl _)
          · exact absurd hlt (hsorted.1 g' hleft).not_gt
      · have hlog' : D.log ++ [(i, f)] = (pre ++ (j, g) :: post) ++ [last] :=
          Eq.trans hlog (by simp)
        exact h.ordered pre j g post (List.append_inj' hlog' rfl).1
    · intro j l hl g hg
      rw [rows, hrows]
      exact (hmove.covered j l hl g hg).imp (List.mem_append_left _) id
    · intro p hp
      obtain ⟨hp, hne⟩ := mem_release.mp hp
      rw [rows, hrows, List.mem_append, List.mem_singleton]
      rintro (hrow | hpf)
      · exact h.fresh p hp hrow
      · exact hne (h.unique p hp _ hheld hpf)
    · intro p hp q hq
      exact h.unique p (mem_release.mp hp).1 q (mem_release.mp hq).1
    · intro j g u hj hlive
      have hj' : (D.enter i .rollingBack).phase j = .committing g u := hj
      have hmem := hmove.holding j g u hj' hlive
      refine mem_release.mpr ⟨hmem, ?_⟩
      rintro rfl
      simp at hj'
  have hfinal := hdone.enter (i := i) (p := .resume t) ?_ ?_ ?_
  · simpa [Database.enter] using hfinal
  · intro l hl
    rw [Phase.remaining_resume] at hl
    cases hl
    exact hsorted.2
  · intro l hl g hg
    rw [Phase.remaining_resume] at hl
    cases hl
    rw [rows, hrows]
    obtain hrow | hleft := h.covered i _ hremaining g hg
    · exact .inl (List.mem_append_left _ hrow)
    · obtain rfl | hleft := List.mem_cons.mp hleft
      · exact .inl (List.mem_append_right _ (List.mem_singleton_self _))
      · exact .inr hleft
  · intro g u hgu
    cases t <;> cases hgu

theorem Kept.perform (h : D.Kept files) (hfiles : ∀ i, (files i).Pairwise (· < ·))
    (halive : D.alive i = true) (hdone : D.perform files i = .done D') : D'.Kept files := by
  unfold Database.perform at hdone
  split at hdone
  · cases hdone
  · cases hdone
  · split at hdone
    · cases hdone
      have hmove : (D.enter i .creating).Kept files := h.move (.inl rfl) (by simp)
      exact ⟨hmove.once, hmove.ordered, hmove.sorted, hmove.covered, hmove.fresh, hmove.unique,
        hmove.holding⟩
    · cases hdone
  · cases hdone
    exact h.move (.inl rfl) (by simp)
  · cases hdone
    apply h.enter
    · intro l hl
      rw [Phase.remaining_resume] at hl
      cases hl
      exact (hfiles i).filter _
    · intro l hl g hg
      rw [Phase.remaining_resume] at hl
      cases hl
      by_cases hrow : g ∈ D.rows
      · exact .inl hrow
      · exact .inr (by simp [hg, hrow])
    · intro f t hft
      cases hleft : (files i).filter (· ∉ D.rows) <;> rw [hleft] at hft <;> cases hft
  · rename_i f t hphase
    cases hdone
    exact h.move (.inr (by rw [hphase]; rfl)) (by simp)
  · rename_i f t hphase
    cases hdone
    exact h.move (.inr (by rw [hphase]; rfl)) (by simp)
  · rename_i f t hphase
    split at hdone
    · cases hdone
    · rename_i hblocked
      split at hdone
      · cases hdone
      · rename_i hnew
        cases hdone
        exact h.insert hphase (Bool.not_eq_true _ ▸ hblocked) hnew
  · rename_i f t hphase
    cases hdone
    exact h.commit hphase halive
  · rename_i hphase
    cases hdone
    have hback : Kept files { D with pending := D.release i } := by
      apply h.rollback
      intro f t hft
      rw [hphase] at hft
      cases hft
    exact hback.move (p := .leaving false) (.inl rfl) (by simp)
  · rename_i ok hphase
    cases hdone
    have hmove : (D.enter i (.ended ok)).Kept files := by
      apply h.move _ (by simp)
      rw [hphase]
      cases ok with
      | false => exact .inl rfl
      | true => exact .inr rfl
    exact ⟨hmove.once, hmove.ordered, hmove.sorted, hmove.covered, hmove.fresh, hmove.unique,
      hmove.holding⟩

theorem remaining_onError_of_perform (hdone : D.perform files i = .done D') :
    (D.phase i).onError.remaining = none ∨
      (D.phase i).onError.remaining = (D'.phase i).remaining := by
  obtain hnone | ⟨ok, hphase, herror⟩ | ⟨_, hphase⟩ := onError_cases (D.phase i)
  · exact .inl hnone
  · rw [Database.perform, hphase] at hdone
    cases hdone
    have hended : (D.enter i (.ended ok)).phase i = .ended ok := by simp
    rw [herror]
    exact .inr (congrArg Phase.remaining hended.symm)
  · obtain hphase | ⟨ok, hphase⟩ := hphase <;> rw [Database.perform, hphase] at hdone <;> cases hdone

theorem Kept.step {locks : Bool} {a : Move} (h : D.Kept files)
    (hfiles : ∀ i, (files i).Pairwise (· < ·)) (hstep : D.step locks files a = some D') :
    D'.Kept files := by
  cases a with
  | boot i =>
    simp only [Database.step] at hstep
    split at hstep
    · cases hstep
      cases locks <;> exact h.move (.inl rfl) (by simp)
    · cases hstep
  | answer i =>
    simp only [Database.step] at hstep
    split at hstep
    · rename_i halive
      split at hstep
      · cases hstep
      · cases hstep
        exact h.move (remaining_onError _) (onError_ne_committing _)
      · rename_i hdone
        cases hstep
        exact h.perform hfiles halive hdone
    · cases hstep
  | fail i =>
    cases hstep
    exact h.move (remaining_onError _) (onError_ne_committing _)
  | lose i =>
    simp only [Database.step] at hstep
    split at hstep
    · rename_i halive
      split at hstep
      · rename_i hdone
        cases hstep
        exact (h.perform hfiles halive hdone).move (remaining_onError_of_perform hdone)
          (onError_ne_committing _)
      all_goals cases hstep
    · cases hstep
  | sever i =>
    cases hstep
    have hdead : Kept files { D with
        clients := Function.update D.clients i { D.clients i with alive := false } } := by
      have hphase : ∀ j, (Database.phase { D with
          clients := Function.update D.clients i { D.clients i with alive := false } } j) =
          D.phase j := by
        intro j
        simp only [phase, Function.update_apply]
        split
        · rename_i hj
          rw [hj]
        · rfl
      refine ⟨h.once, h.ordered, ?_, ?_, h.fresh, h.unique, ?_⟩
      · intro j l hl
        exact h.sorted j l (hphase j ▸ hl)
      · intro j l hl
        exact h.covered j l (hphase j ▸ hl)
      · intro j f t hj halive
        refine h.holding j f t (hphase j ▸ hj) ?_
        simp only [alive, Function.update_apply] at halive ⊢
        split at halive
        · cases halive
        · exact halive
    have hback := hdead.rollback (i := i) fun _ _ _ => by simp [alive]
    exact ⟨hback.once, hback.ordered, hback.sorted, hback.covered, hback.fresh, hback.unique,
      hback.holding⟩

theorem kept_initial {locks : Bool} {isSql : φ → Bool} {images : ℕ → Directory φ}
    (h : (runner locks isSql images).initial D) :
    D.Kept fun i => readMigrationFiles isSql (images i) := by
  obtain ⟨hidle, -, hlog, hpending⟩ := h
  have hnone : ∀ i l, (D.phase i).remaining ≠ some l := by
    intro i l
    rw [hidle i]
    simp [Phase.remaining]
  refine ⟨?_, ?_, fun i l hl => absurd hl (hnone i l), fun i l hl => absurd hl (hnone i l), ?_, ?_,
    ?_⟩
  · simp [rows, hlog]
  · intro pre i f post heq
    rw [hlog] at heq
    cases pre <;> cases heq
  · simp [hpending]
  · simp [hpending]
  · intro i f t hphase
    rw [hidle i] at hphase
    cases hphase

theorem kept_of_reachable {locks : Bool} {isSql : φ → Bool} {images : ℕ → Directory φ}
    (h : (runner locks isSql images).Reachable D) :
    D.Kept fun i => readMigrationFiles isSql (images i) := by
  apply h.invariant
  · exact fun _ => kept_initial
  · intro D a D' hkept _ hstep
    exact hkept.step (fun i => readMigrationFiles_sorted isSql (images i)) hstep

end Database

/-- Whatever instances boot together, from whatever images, and however their queries fail:
each migration is committed once at most, together with its row, and after every earlier one
of the image it was applied from; a runner that returns leaves all of its own recorded. -/
theorem migrations_applied {φ : Type} [LinearOrder φ] (locks : Bool) (isSql : φ → Bool)
    (images : ℕ → Directory φ) {D : Database φ} (h : (runner locks isSql images).Reachable D) :
    D.rows.Nodup ∧
      (∀ pre i f post, D.log = pre ++ (i, f) :: post →
        ∀ g ∈ readMigrationFiles isSql (images i), g < f → g ∈ pre.map (·.2)) ∧
      ∀ i, D.phase i = .ended true → ∀ g ∈ readMigrationFiles isSql (images i), g ∈ D.rows := by
  have hkept := Database.kept_of_reachable h
  refine ⟨hkept.once, hkept.ordered, ?_⟩
  intro i hended g hg
  have hnone : (D.phase i).remaining = some [] := by rw [hended]; rfl
  obtain hrow | hleft := hkept.covered i [] hnone g hg
  · exact hrow
  · cases hleft

/-- Two instances of one image: the answer to a commit of the first is lost and its session ends,
the second goes on. -/
def sampleMoves : List Move :=
  [.boot 0, .boot 1] ++ List.replicate 6 (.answer 0) ++ [.lose 0, .fail 0, .sever 0, .fail 0] ++
    List.replicate 8 (.answer 1)

def sampleSql (f : ℕ) : Bool := f < 5

def sampleImage : Directory ℕ := ⟨[2, 7, 1], by decide⟩

def sampleStart : Database ℕ := ⟨fun _ => {}, none, [], []⟩

def sampleEnd : Database ℕ :=
  (runMigrations sampleSql fun _ => sampleImage).after sampleStart sampleMoves

theorem sample_reachable : (runMigrations sampleSql fun _ => sampleImage).Reachable sampleEnd :=
  ⟨sampleStart, sampleMoves, ⟨fun _ => rfl, rfl, rfl, rfl⟩,
    Machine.run_after (by decide +kernel)⟩

theorem migrations_applied_sample :
    sampleEnd.log = [(0, 1), (1, 2)] ∧ sampleEnd.phase 1 = .ended true ∧
      ∀ g ∈ readMigrationFiles sampleSql sampleImage, g ∈ sampleEnd.rows :=
  ⟨by decide +kernel, by decide +kernel,
    (migrations_applied true sampleSql (fun _ => sampleImage) sample_reachable).2.2 1
      (by decide +kernel)⟩

namespace Database

variable {φ : Type} {files : ℕ → List φ} {D D' : Database φ} {i j : ℕ}

theorem busy_onError {p : Phase φ} (h : p.onError.busy = true) :
    p.busy = true ∧ p.onError.remaining = none := by
  cases p <;> simp_all [Phase.onError, Phase.busy, Phase.remaining]

/-- Who is busy in a live session holds the lock, and nobody has recorded what it has left. -/
structure Exclusive (D : Database φ) : Prop where
  held : ∀ i, (D.phase i).busy = true → D.alive i = true → ∃ n, D.lock = some (i, n)
  new : ∀ i l, (D.phase i).remaining = some l → (D.phase i).busy = true → D.alive i = true →
    ∀ f ∈ l, f ∉ D.rows

theorem Exclusive.unique (h : D.Exclusive) (hi : (D.phase i).busy = true) (hilive : D.alive i = true)
    (hj : (D.phase j).busy = true) (hjlive : D.alive j = true) : i = j := by
  obtain ⟨m, hm⟩ := h.held i hi hilive
  obtain ⟨n, hn⟩ := h.held j hj hjlive
  rw [hm] at hn
  cases hn
  rfl

/-- A change of phase, where a busy one needs the lock and has only new files left. -/
theorem Exclusive.enter (h : D.Exclusive) {p : Phase φ}
    (hheld : p.busy = true → D.alive i = true → ∃ n, D.lock = some (i, n))
    (hnew : ∀ l, p.remaining = some l → p.busy = true → D.alive i = true → ∀ f ∈ l, f ∉ D.rows) :
    (D.enter i p).Exclusive where
  held j hj hlive := by
    rw [phase_enter] at hj
    rw [alive_enter] at hlive
    split at hj
    · rename_i hji
      subst hji
      exact hheld hj hlive
    · exact h.held j hj hlive
  new j l hl hj hlive := by
    rw [phase_enter] at hl hj
    rw [alive_enter] at hlive
    split at hl
    · rename_i hji
      subst hji
      rw [if_pos rfl] at hj
      exact hnew l hl hj hlive
    · rename_i hji
      rw [if_neg hji] at hj
      exact h.new j l hl hj hlive

theorem Exclusive.move (h : D.Exclusive) {p : Phase φ}
    (hbusy : p.busy = true → (D.phase i).busy = true ∧
      (p.remaining = none ∨ p.remaining = (D.phase i).remaining)) : (D.enter i p).Exclusive := by
  apply h.enter
  · intro hp
    exact h.held i (hbusy hp).1
  · intro l hl hp hlive
    obtain ⟨hold, hnone | hsame⟩ := hbusy hp
    · rw [hnone] at hl
      cases hl
    · exact h.new i l (hsame ▸ hl) hold hlive

theorem Exclusive.relock (h : D.Exclusive) {l : AdvisoryLock ℕ}
    (hidle : (D.phase i).busy = true → D.alive i = false)
    (hother : ∀ j n, j ≠ i → D.lock = some (j, n) → l = some (j, n)) :
    Exclusive { D with lock := l } where
  held j hj hlive := by
    obtain ⟨n, hn⟩ := h.held j hj hlive
    refine ⟨n, hother j n ?_ hn⟩
    rintro rfl
    have hdead := hidle hj
    have hlive : D.alive j = true := hlive
    rw [hdead] at hlive
    cases hlive
  new := h.new

variable [LinearOrder φ]

theorem Exclusive.commit (h : D.Exclusive) {f : φ} {t : List φ}
    (hphase : D.phase i = .committing f t) (hlive : D.alive i = true)
    (hsorted : (f :: t).Pairwise (· < ·)) :
    Exclusive
      { D.enter i (.resume t) with log := D.log ++ [(i, f)], pending := D.release i } := by
  have hbusy : (D.phase i).busy = true := by rw [hphase]; rfl
  have hleft : (D.phase i).remaining = some (f :: t) := by rw [hphase]; rfl
  have hmove : (D.enter i (.resume t)).Exclusive := by
    apply h.enter
    · exact fun _ _ => h.held i hbusy hlive
    · intro l hl _ _ g hg
      rw [Phase.remaining_resume] at hl
      cases hl
      exact h.new i _ hleft hbusy hlive g (List.mem_cons_of_mem f hg)
  refine ⟨hmove.held, ?_⟩
  intro j l (hl : ((D.enter i (.resume t)).phase j).remaining = some l)
    (hj : ((D.enter i (.resume t)).phase j).busy = true)
    (hjlive : (D.enter i (.resume t)).alive j = true) g hg
  have hrow : g ∉ D.rows := hmove.new j l hl hj hjlive g hg
  -- Nobody else is busy, and the files of a run are distinct.
  have hji : j = i := by
    by_contra hne
    rw [phase_enter, if_neg hne] at hj
    rw [alive_enter] at hjlive
    exact hne (h.unique hj hjlive hbusy hlive)
  rw [phase_enter, if_pos hji, Phase.remaining_resume] at hl
  cases hl
  have hne : g ≠ f := ((List.pairwise_cons.mp hsorted).1 g hg).ne'
  simpa [rows, hne] using hrow

theorem Exclusive.perform (h : D.Exclusive) (hsorted : ∀ l, (D.phase i).remaining = some l →
    l.Pairwise (· < ·)) (hlive : D.alive i = true) (hdone : D.perform files i = .done D') :
    D'.Exclusive := by
  unfold Database.perform at hdone
  split at hdone
  · cases hdone
  · cases hdone
  · rename_i hphase
    have hidle : (D.phase i).busy = true → D.alive i = false := by simp [hphase, Phase.busy]
    cases hlock : D.lock with
    | none =>
      rw [hlock, AdvisoryLock.tryLock_free] at hdone
      cases hdone
      have hlocked : Exclusive { D with lock := some (i, 1) } := by
        apply h.relock hidle
        intro j n _ hj
        rw [hlock] at hj
        cases hj
      apply hlocked.enter
      · exact fun _ _ => ⟨1, rfl⟩
      · intro l hl
        cases hl
    | some holder =>
      obtain ⟨j, n⟩ := holder
      by_cases hji : j = i
      · subst hji
        rw [hlock] at hdone
        simp only [AdvisoryLock.tryLock, if_pos] at hdone
        cases hdone
        have hlocked : Exclusive { D with lock := some (j, n + 1) } := by
          apply h.relock hidle
          intro k m hk hkm
          rw [hlock] at hkm
          cases hkm
          exact absurd rfl hk
        apply hlocked.enter
        · exact fun _ _ => ⟨n + 1, rfl⟩
        · intro l hl
          cases hl
      · rw [hlock, AdvisoryLock.tryLock_taken hji] at hdone
        cases hdone
  · rename_i hphase
    cases hdone
    exact h.move fun _ => ⟨by rw [hphase]; rfl, .inl rfl⟩
  · rename_i hphase
    cases hdone
    apply h.enter
    · exact fun _ hlive => h.held i (by rw [hphase]; rfl) hlive
    · intro l hl _ _ f hf
      rw [Phase.remaining_resume] at hl
      cases hl
      simpa using (List.mem_filter.mp hf).2
  · rename_i hphase
    cases hdone
    exact h.move fun _ => ⟨by rw [hphase]; rfl, .inr (by rw [hphase]; rfl)⟩
  · rename_i hphase
    cases hdone
    exact h.move fun _ => ⟨by rw [hphase]; rfl, .inr (by rw [hphase]; rfl)⟩
  · rename_i f t hphase
    split at hdone
    · cases hdone
    · split at hdone
      · cases hdone
      · cases hdone
        have hmove : (D.enter i (.committing f t)).Exclusive :=
          h.move fun _ => ⟨by rw [hphase]; rfl, .inr (by rw [hphase]; rfl)⟩
        exact ⟨hmove.held, hmove.new⟩
  · rename_i f t hphase
    cases hdone
    exact h.commit hphase hlive (hsorted _ (by rw [hphase]; rfl))
  · cases hdone
    have hmove : (D.enter i (.leaving false)).Exclusive := h.move fun hbusy => by cases hbusy
    exact ⟨hmove.held, hmove.new⟩
  · rename_i ok hphase
    cases hdone
    have hlocked : Exclusive { D with lock := D.lock.unlock i } := by
      apply h.relock (i := i)
      · simp [hphase, Phase.busy]
      · intro j n hne hj
        rw [hj]
        exact AdvisoryLock.unlock_other hne
    exact hlocked.move (p := .ended ok) fun hbusy => by cases hbusy

theorem perform_of_busy (hdone : D.perform files i = .done D') :
    ((D.phase i).busy = true → D'.lock = D.lock) ∧ D'.alive i = D.alive i := by
  unfold Database.perform at hdone
  split at hdone <;> (try split at hdone) <;> (try split at hdone) <;> cases hdone <;>
    simp_all [Phase.busy, alive, enter]

theorem Exclusive.step {a : Move} (h : D.Exclusive) (hkept : D.Kept files)
    (hstep : D.step true files a = some D') : D'.Exclusive := by
  have herror : ∀ {i}, (D.enter i (D.phase i).onError).Exclusive := by
    intro i
    apply h.move
    intro hbusy
    exact ⟨(busy_onError hbusy).1, .inl (busy_onError hbusy).2⟩
  cases a with
  | boot i =>
    simp only [Database.step] at hstep
    split at hstep
    · cases hstep
      exact h.move fun hbusy => by cases hbusy
    · cases hstep
  | answer i =>
    simp only [Database.step] at hstep
    split at hstep
    · rename_i hlive
      split at hstep
      · cases hstep
      · cases hstep
        exact herror
      · rename_i hdone
        cases hstep
        exact h.perform (hkept.sorted i) hlive hdone
    · cases hstep
  | fail i =>
    cases hstep
    exact herror
  | lose i =>
    simp only [Database.step] at hstep
    split at hstep
    · rename_i hlive
      split at hstep
      · rename_i D₁ hdone
        cases hstep
        obtain ⟨hlock, halive⟩ := perform_of_busy hdone
        apply (h.perform (hkept.sorted i) hlive hdone).enter
        · intro hbusy _
          have hold := (busy_onError hbusy).1
          rw [hlock hold]
          exact h.held i hold hlive
        · intro l hl hbusy
          rw [(busy_onError hbusy).2] at hl
          cases hl
      all_goals cases hstep
    · cases hstep
  | sever i =>
    cases hstep
    have hlive : ∀ {j}, (Function.update D.clients i { D.clients i with alive := false } j).alive =
        true → j ≠ i ∧ D.alive j = true := by
      intro j hj
      rw [Function.update_apply] at hj
      split at hj
      · cases hj
      · exact ⟨‹_›, hj⟩
    have hphase : ∀ {j}, j ≠ i →
        (Function.update D.clients i { D.clients i with alive := false } j).phase = D.phase j := by
      intro j hj
      rw [Function.update_of_ne hj]
      rfl
    constructor
    · intro j hj hjlive
      obtain ⟨hne, hjlive⟩ := hlive hjlive
      obtain ⟨n, hn⟩ := h.held j (hphase hne ▸ hj) hjlive
      refine ⟨n, ?_⟩
      simp [hn, AdvisoryLock.endSession, hne]
    · intro j l hl hj hjlive
      obtain ⟨hne, hjlive⟩ := hlive hjlive
      exact h.new j l (hphase hne ▸ hl) (hphase hne ▸ hj) hjlive

theorem exclusive_of_reachable {isSql : φ → Bool} {images : ℕ → Directory φ}
    (h : (runMigrations isSql images).Reachable D) : D.Exclusive := by
  apply h.induction
  · rintro D ⟨hidle, -⟩
    constructor
    · intro i hi
      rw [hidle i] at hi
      cases hi
    · intro i l _ hi
      rw [hidle i] at hi
      cases hi
  · intro D a D' hreach hex _ hstep
    exact hex.step (kept_of_reachable hreach) hstep

end Database

/-- Under the lock of the API the runs exclude each other: at most one live session is between
its lock and its release, and no row it inserts has been recorded by another. -/
theorem migrations_exclusive {φ : Type} [LinearOrder φ] (isSql : φ → Bool)
    (images : ℕ → Directory φ) {D : Database φ} (h : (runMigrations isSql images).Reachable D) :
    (∀ i j, (D.phase i).busy = true → D.alive i = true → (D.phase j).busy = true →
      D.alive j = true → i = j) ∧
      ∀ i f t, D.phase i = .inserting f t → D.alive i = true → f ∉ D.rows := by
  have hex := Database.exclusive_of_reachable h
  constructor
  · intro i j hi hilive hj hjlive
    exact hex.unique hi hilive hj hjlive
  · intro i f t hphase hlive
    refine hex.new i (f :: t) ?_ ?_ hlive f List.mem_cons_self
    · rw [hphase]
      rfl
    · rw [hphase]
      rfl

def sampleMiddle : Database ℕ :=
  (runMigrations sampleSql fun _ => sampleImage).after sampleStart (sampleMoves.take 7)

theorem migrations_exclusive_sample : sampleMiddle.phase 0 = .inserting 1 [2] ∧
    1 ∉ sampleMiddle.rows :=
  ⟨by decide +kernel,
    (migrations_exclusive sampleSql (fun _ => sampleImage)
      ⟨sampleStart, sampleMoves.take 7, ⟨fun _ => rfl, rfl, rfl, rfl⟩,
        Machine.run_after (by decide +kernel)⟩).2 0 1 [2] (by decide +kernel)
      (by decide +kernel)⟩

/-- Without a lock the second of two instances is refused its row, and gives up. -/
example :
    ((run_migrations sampleSql fun _ => sampleImage).after sampleStart
      ([.boot 0, .boot 1] ++ List.replicate 5 (.answer 0) ++ List.replicate 4 (.answer 1) ++
        [.answer 0, .answer 1, .answer 1])).phase 1 = .leaving false := by
  decide +kernel

end Hill90.Boot
