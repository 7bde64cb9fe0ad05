import Mathlib.Data.List.Infix
import Mathlib.Logic.Function.Basic

/-! # A tree of files and directories

A node is found by the names that lead to it.  A file is written through a temporary one: the
directories above it are made where they are missing, and the last step is a rename.
-/

namespace Hill90.FileTree

inductive Node where
  | file (content : String)
  | directory
  deriving DecidableEq, Repr

def Node.isFile : Node → Bool
  | .file _ => true
  | .directory => false

variable {α : Type} [DecidableEq α]

abbrev Tree (α : Type) := List α → Option Node

abbrev Above (x p : List α) : Prop := x <+: p ∧ x ≠ p

/-- Nothing is changed where a file is on the way. -/
def makeParents (t : Tree α) (p : List α) : Option (Tree α) :=
  if p.inits.any fun x => x ≠ p ∧ (t x).any Node.isFile then none
  else some fun x => if Above x p then some .directory else t x

/-- A rename replaces a file, but no directory. -/
def rename (t : Tree α) (p : List α) (content : String) : Option (Tree α) :=
  if t p = some .directory then none else some (Function.update t p (some (.file content)))

/-- Whether the file is written, and the tree; directories that were made stay. -/
def write (t : Tree α) (p : List α) (content : String) : Bool × Tree α :=
  match makeParents t p with
  | none => (false, t)
  | some made =>
    match rename made p content with
    | none => (false, made)
    | some written => (true, written)

/-- What lies below a name lies in a directory. -/
def Layered (t : Tree α) : Prop := ∀ x p, Above x p → t p ≠ none → t x = some .directory

variable {t : Tree α} {p : List α} {content : String}

theorem makeParents_eq_some {made : Tree α} : makeParents t p = some made ↔
    (∀ x c, Above x p → t x ≠ some (.file c)) ∧
      made = fun x => if Above x p then some .directory else t x := by
  unfold makeParents
  split
  · rename_i h
    obtain ⟨x, hx, hfile⟩ := List.any_eq_true.mp h
    obtain ⟨hne, hfile⟩ := of_decide_eq_true hfile
    refine iff_of_false (fun h => by cases h) fun hopen => ?_
    obtain ⟨node, hnode, hfile⟩ := (Option.any_eq_true _ _).mp hfile
    cases node with
    | file c => exact hopen.1 x c ⟨(List.mem_inits x p).mp hx, hne⟩ hnode
    | directory => cases hfile
  · rename_i h
    constructor
    · intro hmade
      cases hmade
      refine ⟨?_, rfl⟩
      intro x c hx hfile
      apply h
      refine List.any_eq_true.mpr ⟨x, (List.mem_inits x p).mpr hx.1, decide_eq_true ⟨hx.2, ?_⟩⟩
      rw [hfile]
      rfl
    · rintro ⟨-, rfl⟩
      rfl

omit [DecidableEq α] in
theorem Above.trans {x y : List α} (hxy : Above x y) (hyp : Above y p) : Above x p := by
  refine ⟨hxy.1.trans hyp.1, ?_⟩
  rintro rfl
  exact hyp.2 (hyp.1.eq_of_length (le_antisymm hyp.1.length_le hxy.1.length_le))

/-- A written file stands in its place, the directories above it are made, and nothing else is
changed. -/
theorem write_eq_true {u : Tree α} (h : write t p content = (true, u)) :
    (∀ x c, Above x p → t x ≠ some (.file c)) ∧ t p ≠ some .directory ∧ ∀ x, u x =
      if x = p then some (.file content) else if Above x p then some .directory else t x := by
  unfold write at h
  split at h
  · cases h
  rename_i made hmade
  obtain ⟨hopen, rfl⟩ := makeParents_eq_some.mp hmade
  unfold rename at h
  split at h
  · cases h
  rename_i written hwritten
  split at hwritten
  · cases hwritten
  rename_i hplace
  cases hwritten
  cases h
  refine ⟨hopen, by simpa using hplace, fun x => ?_⟩
  rw [Function.update_apply]

/-- The write succeeds unless a file is above or a directory in its place. -/
theorem write_fst (hopen : ∀ x c, Above x p → t x ≠ some (.file c)) (hplace : t p ≠ some .directory) :
    (write t p content).1 = true := by
  unfold write
  rw [makeParents_eq_some.mpr ⟨hopen, rfl⟩]
  dsimp only
  rw [rename, if_neg (by simpa using hplace)]

theorem Layered.write (h : Layered t) : Layered (write t p content).2 := by
  unfold FileTree.write
  split
  · exact h
  rename_i made hmade
  obtain ⟨hopen, rfl⟩ := makeParents_eq_some.mp hmade
  have hmade' : Layered fun x => if Above x p then some Node.directory else t x := by
    intro x q hx hq
    dsimp only at hq ⊢
    split
    · rfl
    rename_i hxp
    rw [if_neg fun hqp => hxp (hx.trans hqp)] at hq
    exact h x q hx hq
  unfold rename
  split
  · rename_i hwritten
    exact hmade'
  rename_i written hwritten
  split at hwritten
  · cases hwritten
  rename_i hplace
  cases hwritten
  intro x q hx hq
  dsimp only at hq ⊢
  rw [Function.update_apply] at hq ⊢
  by_cases hxp : x = p
  · subst hxp
    -- what lies below the new file would have lain in a directory of that name
    rw [if_neg hx.2.symm] at hq
    exact absurd (hmade' x q hx hq) hplace
  · rw [if_neg hxp]
    split at hq
    · rename_i hqp
      subst hqp
      exact if_pos hx
    · exact hmade' x q hx hq

end Hill90.FileTree
