import Mathlib.Data.List.Sort
import Mathlib.Data.List.Perm.Basic

/-! # A ledger of row versions

Transactions write versions of rows, each numbered from one sequence when it is
written, and show them together when they commit.  A key is locked by the transaction
that wrote it last until that transaction ends, so the versions of one key come in the
order of their numbers; the versions of different keys need not.
-/

namespace Hill90

variable {κ ρ : Type} {key : ρ → κ} {seq : ρ → ℕ}

/-- What the versions that are committed (`log`) or still hidden (`pending`, with the
transaction that wrote them) satisfy. -/
structure Ledger.Sound (key : ρ → κ) (seq : ρ → ℕ) (log : List ρ) (pending : List (ℕ × ρ))
    (nextSeq : ℕ) : Prop where
  distinct : ((log ++ pending.map Prod.snd).map seq).Nodup
  rising : (log ++ pending.map Prod.snd).Pairwise fun v w => key v = key w → seq v < seq w
  below : ∀ v ∈ log ++ pending.map Prod.snd, seq v < nextSeq
  locked : ∀ p ∈ pending, ∀ q ∈ pending, key p.2 = key q.2 → p.1 = q.1

structure Ledger (key : ρ → κ) (seq : ρ → ℕ) where
  log : List ρ
  pending : List (ℕ × ρ)
  nextSeq : ℕ
  sound : Ledger.Sound key seq log pending nextSeq

namespace Ledger

def empty : Ledger key seq := ⟨[], [], 1, by constructor <;> simp⟩

def written (l : Ledger key seq) (tx : ℕ) : List (ℕ × ρ) := l.pending.filter fun p => p.1 = tx

def others (l : Ledger key seq) (tx : ℕ) : List (ℕ × ρ) := l.pending.filter fun p => !(p.1 = tx)

theorem sound_write {l : Ledger key seq} {tx : ℕ} {row : ρ} (hseq : seq row = l.nextSeq)
    (hfree : ∀ p ∈ l.pending, key p.2 = key row → p.1 = tx) :
    Sound key seq l.log (l.pending ++ [(tx, row)]) (l.nextSeq + 1) := by
  have hrows : l.log ++ (l.pending ++ [(tx, row)]).map Prod.snd =
      l.log ++ l.pending.map Prod.snd ++ [row] := by simp
  have hbelow := l.sound.below
  constructor
  · rw [hrows, List.map_append]
    refine l.sound.distinct.append (List.nodup_singleton _) ?_
    intro n hn hrow
    obtain ⟨v, hv, rfl⟩ := List.mem_map.mp hn
    have := hbelow v hv
    simp only [List.map_cons, List.map_nil, List.mem_singleton] at hrow
    omega
  · rw [hrows, List.pairwise_append]
    refine ⟨l.sound.rising, List.pairwise_singleton _ _, ?_⟩
    intro v hv w hw _
    obtain rfl : w = row := by simpa using hw
    have := hbelow v hv
    omega
  · intro v hv
    rw [hrows, List.mem_append] at hv
    obtain hv | hv := hv
    · have := hbelow v hv
      omega
    · obtain rfl : v = row := by simpa using hv
      omega
  · intro p hp q hq hkey
    rw [List.mem_append, List.mem_singleton] at hp hq
    obtain hp | rfl := hp
    · obtain hq | rfl := hq
      · exact l.sound.locked p hp q hq hkey
      · exact hfree p hp hkey
    · obtain hq | rfl := hq
      · exact (hfree q hq hkey.symm).symm
      · rfl

/-- The row takes the next number; it waits while another transaction holds its key. -/
def write [DecidableEq κ] (l : Ledger key seq) (tx : ℕ) (row : ρ) : Option (Ledger key seq) :=
  if h : seq row = l.nextSeq ∧ ∀ p ∈ l.pending, key p.2 = key row → p.1 = tx then
    some ⟨l.log, l.pending ++ [(tx, row)], l.nextSeq + 1, sound_write h.1 h.2⟩
  else none

theorem written_append_others (l : Ledger key seq) (tx : ℕ) :
    (l.written tx ++ l.others tx).Perm l.pending := List.filter_append_perm _ _

theorem sound_commit (l : Ledger key seq) (tx : ℕ) :
    Sound key seq (l.log ++ (l.written tx).map Prod.snd) (l.others tx) l.nextSeq := by
  have hperm : (l.log ++ (l.written tx).map Prod.snd ++ (l.others tx).map Prod.snd).Perm
      (l.log ++ l.pending.map Prod.snd) := by
    rw [List.append_assoc, ← List.map_append]
    exact ((l.written_append_others tx).map Prod.snd).append_left l.log
  have hrising := List.pairwise_append.mp l.sound.rising
  constructor
  · exact (hperm.map seq).nodup_iff.mpr l.sound.distinct
  · rw [List.pairwise_append]
    refine ⟨?_, ?_, ?_⟩
    · exact l.sound.rising.sublist ((List.filter_sublist.map Prod.snd).append_left l.log)
    · exact hrising.2.1.sublist (List.filter_sublist.map Prod.snd)
    · intro v hv w hw hkey
      obtain ⟨q, hq, rfl⟩ := List.mem_map.mp hw
      have hq := List.mem_filter.mp hq
      obtain hv | hv := List.mem_append.mp hv
      · exact hrising.2.2 v hv q.2 (List.mem_map_of_mem hq.1) hkey
      · -- A key the committing transaction holds is held by no other.
        obtain ⟨p, hp, rfl⟩ := List.mem_map.mp hv
        have hp := List.mem_filter.mp hp
        have := l.sound.locked p hp.1 q hq.1 hkey
        simp_all
  · intro v hv
    exact l.sound.below v (hperm.mem_iff.mp hv)
  · intro p hp q hq
    exact l.sound.locked p (List.mem_of_mem_filter hp) q (List.mem_of_mem_filter hq)

def commit (l : Ledger key seq) (tx : ℕ) : Ledger key seq :=
  ⟨l.log ++ (l.written tx).map Prod.snd, l.others tx, l.nextSeq, l.sound_commit tx⟩

/-- The numbers an aborted transaction took are lost. -/
def abort (l : Ledger key seq) (tx : ℕ) : Ledger key seq :=
  ⟨l.log, l.others tx, l.nextSeq, by
    have hsub : (l.log ++ (l.others tx).map Prod.snd).Sublist
        (l.log ++ l.pending.map Prod.snd) :=
      (List.filter_sublist.map Prod.snd).append_left l.log
    constructor
    · exact l.sound.distinct.sublist (hsub.map seq)
    · exact l.sound.rising.sublist hsub
    · intro v hv
      exact l.sound.below v (hsub.subset hv)
    · intro p hp q hq
      exact l.sound.locked p (List.mem_of_mem_filter hp) q (List.mem_of_mem_filter hq)⟩

inductive Action (ρ : Type) where
  | write (tx : ℕ) (row : ρ)
  | commit (tx : ℕ)
  | abort (tx : ℕ)
  deriving DecidableEq, Repr

def act [DecidableEq κ] (l : Ledger key seq) : Action ρ → Option (Ledger key seq)
  | .write tx row => l.write tx row
  | .commit tx => some (l.commit tx)
  | .abort tx => some (l.abort tx)

def shown (l : Ledger key seq) : Action ρ → List ρ
  | .commit tx => (l.written tx).map Prod.snd
  | .write .. | .abort _ => []

theorem log_of_act [DecidableEq κ] {l l' : Ledger key seq} {a : Action ρ} (h : l.act a = some l') :
    l'.log = l.log ++ l.shown a := by
  cases a with
  | write tx row =>
    simp only [act, write] at h
    split at h
    · cases h
      simp [shown]
    · cases h
  | commit tx =>
    cases h
    rfl
  | abort tx =>
    cases h
    simp [abort, shown]

/-- A later version of the same row is visible. -/
def Superseded (l : Ledger key seq) (v : ρ) : Prop := ∃ w ∈ l.log, key w = key v ∧ seq v < seq w

theorem Superseded.grow {l l' : Ledger key seq} {v : ρ} {new : List ρ} (h : l.Superseded v)
    (hlog : l'.log = l.log ++ new) : l'.Superseded v := by
  obtain ⟨w, hw, hkey, hlt⟩ := h
  refine ⟨w, ?_, hkey, hlt⟩
  rw [hlog]
  exact List.mem_append_left _ hw

instance [DecidableEq κ] (l : Ledger key seq) (v : ρ) : Decidable (l.Superseded v) :=
  inferInstanceAs (Decidable (∃ w ∈ l.log, key w = key v ∧ seq v < seq w))

section Reading

variable [DecidableEq κ]

def latest (key : ρ → κ) : List ρ → List ρ
  | [] => []
  | v :: vs => if vs.any fun w => key w = key v then latest key vs else v :: latest key vs

theorem latest_sublist (vs : List ρ) : (latest key vs).Sublist vs := by
  induction vs with
  | nil => exact .slnil
  | cons v vs ih =>
    rw [latest]
    split
    · exact ih.cons v
    · exact ih.cons_cons v

theorem exists_latest {vs : List ρ} {v : ρ}
    (hrising : vs.Pairwise fun v w => key v = key w → seq v < seq w) (hv : v ∈ vs) :
    v ∈ latest key vs ∨ ∃ w ∈ latest key vs, key w = key v ∧ seq v < seq w := by
  induction vs generalizing v with
  | nil => cases hv
  | cons u vs ih =>
    obtain ⟨hu, hvs⟩ := List.pairwise_cons.mp hrising
    rw [latest]
    split
    · rename_i hany
      obtain rfl | hv := List.mem_cons.mp hv
      · obtain ⟨w, hw, hkey⟩ := List.any_eq_true.mp hany
        have hkey : key w = key v := by simpa using hkey
        have hlt := hu w hw hkey.symm
        obtain hw | ⟨x, hx, hkeyx, hltx⟩ := ih hvs hw
        · exact .inr ⟨w, hw, hkey, hlt⟩
        · exact .inr ⟨x, hx, hkeyx.trans hkey, hlt.trans hltx⟩
      · exact ih hvs hv
    · obtain rfl | hv := List.mem_cons.mp hv
      · exact .inl List.mem_cons_self
      · obtain hv | ⟨w, hw, hkey, hlt⟩ := ih hvs hv
        · exact .inl (List.mem_cons_of_mem u hv)
        · exact .inr ⟨w, List.mem_cons_of_mem u hw, hkey, hlt⟩

def select (l : Ledger key seq) (q : ρ → Bool) : List ρ :=
  ((latest key l.log).filter q).insertionSort fun v w => seq v ≤ seq w

theorem mem_log_of_mem_select {l : Ledger key seq} {q : ρ → Bool} {v : ρ} (h : v ∈ l.select q) :
    v ∈ l.log ∧ q v = true := by
  have hmem := List.mem_filter.mp ((List.mem_insertionSort _).mp h)
  exact ⟨(latest_sublist l.log).subset hmem.1, hmem.2⟩

/-- A visible row that matches is read, unless a later version has taken its place. -/
theorem mem_select_or_superseded {l : Ledger key seq} {q : ρ → Bool} {v : ρ} (hv : v ∈ l.log)
    (hq : q v = true) : v ∈ l.select q ∨ l.Superseded v := by
  have hrising := l.sound.rising.sublist (List.sublist_append_left _ _)
  obtain hmem | ⟨w, hw, hkey, hlt⟩ := exists_latest hrising hv
  · exact .inl ((List.mem_insertionSort _).mpr (List.mem_filter.mpr ⟨hmem, hq⟩))
  · exact .inr ⟨w, (latest_sublist l.log).subset hw, hkey, hlt⟩

/-- A visible row is read in a version that is no older, where all of these match. -/
theorem exists_mem_select {l : Ledger key seq} {q : ρ → Bool} {v : ρ} (hv : v ∈ l.log)
    (hq : ∀ w, key w = key v → seq v ≤ seq w → q w = true) :
    ∃ w ∈ l.select q, key w = key v ∧ seq v ≤ seq w := by
  have hrising := l.sound.rising.sublist (List.sublist_append_left _ _)
  have hmem : ∀ w, w ∈ latest key l.log → q w = true → w ∈ l.select q := fun w hw hqw =>
    (List.mem_insertionSort _).mpr (List.mem_filter.mpr ⟨hw, hqw⟩)
  obtain hlatest | ⟨w, hw, hkey, hlt⟩ := exists_latest hrising hv
  · exact ⟨v, hmem v hlatest (hq v rfl le_rfl), rfl, le_rfl⟩
  · exact ⟨w, hmem w hw (hq w hkey hlt.le), hkey, hlt.le⟩

theorem select_rising (l : Ledger key seq) (q : ρ → Bool) :
    (l.select q).Pairwise fun v w => seq v < seq w := by
  have htotal : Std.Total fun v w : ρ => seq v ≤ seq w := ⟨fun v w => Nat.le_total _ _⟩
  have htrans : IsTrans ρ fun v w => seq v ≤ seq w := ⟨fun _ _ _ => Nat.le_trans⟩
  have hle : (l.select q).Pairwise fun v w => seq v ≤ seq w :=
    List.pairwise_insertionSort _ _
  have hne : (l.select q).Pairwise fun v w => seq v ≠ seq w := by
    have hlog : (l.log.map seq).Nodup := by
      have hall := l.sound.distinct
      rw [List.map_append] at hall
      exact hall.sublist (List.sublist_append_left _ _)
    have hfilter : (((latest key l.log).filter q).map seq).Nodup :=
      hlog.sublist ((List.filter_sublist.trans (latest_sublist l.log)).map seq)
    have hsorted : ((l.select q).map seq).Nodup :=
      ((List.perm_insertionSort _ _).map seq).nodup_iff.mpr hfilter
    exact List.pairwise_map.mp hsorted
  exact hle.imp₂ (fun v w hle hne => lt_of_le_of_ne hle hne) hne

end Reading

/-- `ORDER BY seq DESC LIMIT n` of rows in ascending order, ascending again. -/
def newest (n : ℕ) (rows : List ρ) : List ρ := (rows.reverse.take n).reverse

theorem newest_suffix (n : ℕ) (rows : List ρ) : newest n rows <:+ rows := by
  have hprefix : (newest n rows).reverse <+: rows.reverse := by
    rw [newest, List.reverse_reverse]
    exact List.take_prefix n rows.reverse
  exact List.reverse_prefix.mp hprefix

theorem length_newest (n : ℕ) (rows : List ρ) : (newest n rows).length = min n rows.length := by
  simp [newest]

theorem newest_eq_self {n : ℕ} {rows : List ρ} (h : (newest n rows).length < n) :
    newest n rows = rows := by
  have hlen := length_newest n rows
  exact (newest_suffix n rows).eq_of_length (by omega)

/-- What is not below the oldest of the newest is one of them. -/
theorem mem_newest {n : ℕ} {rows : List ρ} {v w : ρ}
    (hrising : rows.Pairwise fun v w => seq v < seq w) (hv : v ∈ rows) (hw : w ∈ newest n rows)
    (hle : seq w ≤ seq v) : v ∈ newest n rows := by
  obtain ⟨older, hsplit⟩ := newest_suffix n rows
  rw [← hsplit] at hrising hv
  obtain hv | hv := List.mem_append.mp hv
  · have := (List.pairwise_append.mp hrising).2.2 v hv w hw
    omega
  · exact hv

end Ledger

end Hill90
