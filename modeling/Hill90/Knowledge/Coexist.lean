import Hill90.Foundation.FileTree
import Hill90.Knowledge.Canonical

/-! # The files of one agent

Where the accepted paths of an agent lead in the tree of files, and whether the entries that are
created there get their files.
-/

namespace Hill90.Knowledge

open FileTree

structure AcceptedPath (lower : String → String) where
  path : String
  accepted : ∃ raw, validatePath lower raw = .ok path

variable {lower : String → String}

abbrev AcceptedPath.segments (p : AcceptedPath lower) : List (List Char) := p.path.toList.splitOn '/'

section Create

variable (dataDir agentId : String)

def filePath (p : AcceptedPath lower) : List (List Char) :=
  (resolveFilePath dataDir agentId p.path).parts

variable (content : String → String)

/-- `create_entry` once its row is in: the status of the row, and the tree. -/
def createFile (t : FileTree.Tree (List Char)) (p : AcceptedPath lower) :
    SyncStatus × FileTree.Tree (List Char) :=
  let (written, t) := write t (filePath dataDir agentId p) (content p.path)
  (if written then .synced else .pending, t)

def createFiles (t : FileTree.Tree (List Char)) (paths : List (AcceptedPath lower)) :
    FileTree.Tree (List Char) :=
  paths.foldl (fun t p => (createFile dataDir agentId content t p).2) t

def AllSynced : FileTree.Tree (List Char) → List (AcceptedPath lower) → Prop
  | _, [] => True
  | t, p :: paths =>
    (createFile dataDir agentId content t p).1 = .synced ∧
      AllSynced (createFile dataDir agentId content t p).2 paths

/-- Nothing is below the directory of the agent yet, and no file in the place of it or above. -/
structure Vacant (t : FileTree.Tree (List Char)) : Prop where
  layered : Layered t
  empty : ∀ x, Above (agentDirectory dataDir agentId).parts x → t x = none
  reachable : ∀ x c, x <+: (agentDirectory dataDir agentId).parts → t x ≠ some (.file c)

/-- In whatever order the entries are created, each gets its file, and in the end all are there. -/
def Coexist (t : FileTree.Tree (List Char)) (paths : List (AcceptedPath lower)) : Prop :=
  ∀ order : List (AcceptedPath lower), order.Perm paths →
    AllSynced dataDir agentId content t order ∧
      ∀ p ∈ paths, createFiles dataDir agentId content t order (filePath dataDir agentId p) =
        some (.file (content p.path))

end Create

section Place

variable {dataDir agentId : String} {p q : AcceptedPath lower}

theorem filePath_eq (hlower : Lowering lower) (dataDir agentId : String) (p : AcceptedPath lower) :
    filePath dataDir agentId p = (agentDirectory dataDir agentId).parts ++ p.segments := by
  obtain ⟨raw, hraw⟩ := p.accepted
  obtain ⟨hundotted, hundivided⟩ := undotted_of_accepted hlower hraw
  rw [filePath, resolveFilePath, div_eq _ (head_of_undivided hundivided)
    (proper_of_canonical hundotted hundivided)]

theorem segments_injective (h : p.segments = q.segments) : p = q := by
  have hpath : p.path = q.path := by
    have hlist := congrArg (fun l => ['/'].intercalate l) h
    simp only [List.intercalate_splitOn] at hlist
    exact String.toList_injective hlist
  cases p
  cases q
  cases hpath
  rfl

theorem above_filePath_iff (hlower : Lowering lower) :
    Above (filePath dataDir agentId p) (filePath dataDir agentId q) ↔
      Above p.segments q.segments := by
  rw [filePath_eq hlower, filePath_eq hlower, Above, List.prefix_append_right_inj, Ne,
    List.append_right_inj]

theorem filePath_injective (hlower : Lowering lower)
    (h : filePath dataDir agentId p = filePath dataDir agentId q) : p = q := by
  rw [filePath_eq hlower, filePath_eq hlower, List.append_right_inj] at h
  exact segments_injective h

theorem above_directory (hlower : Lowering lower) (p : AcceptedPath lower) :
    Above (agentDirectory dataDir agentId).parts (filePath dataDir agentId p) := by
  rw [filePath_eq hlower]
  refine ⟨List.prefix_append _ _, fun h => ?_⟩
  exact List.splitOn_ne_nil '/' p.path.toList (List.self_eq_append_right.mp h)

end Place

section Run

variable {dataDir agentId : String} {content : String → String} {t : FileTree.Tree (List Char)}
  {paths : List (AcceptedPath lower)}

/-- The files below the agent's directory are those of `done`, and its directories lead to them. -/
structure Holds (dataDir agentId : String) (content : String → String)
    (done : List (AcceptedPath lower)) (t : FileTree.Tree (List Char)) : Prop where
  file : ∀ p ∈ done, t (filePath dataDir agentId p) = some (.file (content p.path))
  nothing : ∀ x c, t x = some (.file c) → x <+: (agentDirectory dataDir agentId).parts ∨
    Above (agentDirectory dataDir agentId).parts x → ∃ p ∈ done, x = filePath dataDir agentId p
  directory : ∀ x, t x = some .directory → Above (agentDirectory dataDir agentId).parts x →
    ∃ p ∈ done, Above x (filePath dataDir agentId p)

theorem Holds.create (hlower : Lowering lower) {done : List (AcceptedPath lower)}
    (h : Holds dataDir agentId content done t) {p : AcceptedPath lower} (hp : p ∉ done)
    (hfree : ∀ q ∈ done, ¬Above q.segments p.segments ∧ ¬Above p.segments q.segments) :
    (createFile dataDir agentId content t p).1 = .synced ∧
      Holds dataDir agentId content (p :: done) (createFile dataDir agentId content t p).2 := by
  have hbelow : Above (agentDirectory dataDir agentId).parts (filePath dataDir agentId p) :=
    above_directory hlower p
  have hopen : ∀ x c, Above x (filePath dataDir agentId p) → t x ≠ some (.file c) := by
    intro x c hx hfile
    have hside : x <+: (agentDirectory dataDir agentId).parts ∨
        Above (agentDirectory dataDir agentId).parts x := by
      rcases List.prefix_or_prefix_of_prefix hx.1 hbelow.1 with hside | hside
      · exact .inl hside
      · by_cases heq : (agentDirectory dataDir agentId).parts = x
        · exact .inl (heq ▸ List.prefix_rfl)
        · exact .inr ⟨hside, heq⟩
    obtain ⟨q, hq, rfl⟩ := h.nothing x c hfile hside
    exact (hfree q hq).1 ((above_filePath_iff hlower).mp hx)
  have hplace : t (filePath dataDir agentId p) ≠ some .directory := by
    intro hdir
    obtain ⟨q, hq, habove⟩ := h.directory _ hdir hbelow
    exact (hfree q hq).2 ((above_filePath_iff hlower).mp habove)
  have hwrite : (write t (filePath dataDir agentId p) (content p.path)).1 = true :=
    write_fst hopen hplace
  obtain ⟨-, -, hu⟩ := write_eq_true
    (u := (write t (filePath dataDir agentId p) (content p.path)).snd) (Prod.ext hwrite rfl)
  refine ⟨?_, ?_, ?_, ?_⟩
  · unfold createFile
    simp [hwrite]
  · intro q hq
    change (write t _ _).2 _ = _
    rw [hu]
    rcases List.mem_cons.mp hq with rfl | hq
    · exact if_pos rfl
    · have hne : q ≠ p := fun heq => hp (heq ▸ hq)
      rw [if_neg fun heq => hne (filePath_injective hlower heq),
        if_neg fun hx => (hfree q hq).1 ((above_filePath_iff hlower).mp hx), h.file q hq]
  · intro x c hx hside
    change (write t _ _).2 x = _ at hx
    rw [hu] at hx
    split at hx
    · exact ⟨p, List.mem_cons_self, ‹_›⟩
    split at hx
    · cases hx
    obtain ⟨q, hq, rfl⟩ := h.nothing x c hx hside
    exact ⟨q, List.mem_cons_of_mem _ hq, rfl⟩
  · intro x hx hside
    change (write t _ _).2 x = _ at hx
    rw [hu] at hx
    split at hx
    · cases hx
    split at hx
    · exact ⟨p, List.mem_cons_self, ‹_›⟩
    obtain ⟨q, hq, habove⟩ := h.directory x hx hside
    exact ⟨q, List.mem_cons_of_mem _ hq, habove⟩

theorem Vacant.holds (h : Vacant dataDir agentId t) :
    Holds dataDir agentId content ([] : List (AcceptedPath lower)) t := by
  refine ⟨fun p hp => absurd hp List.not_mem_nil, ?_, ?_⟩
  · rintro x c hx (hside | hside)
    · exact absurd hx (h.reachable x c hside)
    · rw [h.empty x hside] at hx
      cases hx
  · intro x hx hside
    rw [h.empty x hside] at hx
    cases hx

/-- A run of creations, where no path leads through another. -/
theorem Holds.run (hlower : Lowering lower) (order : List (AcceptedPath lower))
    {done : List (AcceptedPath lower)} (h : Holds dataDir agentId content done t)
    (hnodup : (order ++ done).Nodup)
    (hfree : ∀ p ∈ order ++ done, ∀ q ∈ order ++ done, ¬Above p.segments q.segments) :
    AllSynced dataDir agentId content t order ∧ Holds dataDir agentId content (order.reverse ++ done)
      (createFiles dataDir agentId content t order) := by
  induction order generalizing t done with
  | nil => exact ⟨trivial, h⟩
  | cons p order ih =>
    have hmid : (order ++ p :: done).Perm (p :: order ++ done) := List.perm_middle
    have hnew := List.nodup_cons.mp hnodup
    obtain ⟨hsynced, hholds⟩ := h.create hlower (p := p)
      (fun hp => hnew.1 (List.mem_append_right _ hp))
      fun q hq => ⟨hfree q (List.mem_append_right _ hq) p List.mem_cons_self,
        hfree p List.mem_cons_self q (List.mem_append_right _ hq)⟩
    obtain ⟨hall, hend⟩ := ih hholds (hmid.nodup_iff.mpr hnodup)
      fun a ha b hb => hfree a (hmid.mem_iff.mp ha) b (hmid.mem_iff.mp hb)
    refine ⟨⟨hsynced, hall⟩, ?_⟩
    rw [List.reverse_cons, List.append_assoc]
    exact hend

theorem Layered.createFiles (h : Layered t) (order : List (AcceptedPath lower)) :
    Layered (createFiles dataDir agentId content t order) := by
  induction order generalizing t with
  | nil => exact h
  | cons p order ih => exact ih h.write

theorem Layered.not_above (h : Layered t) {x y : List (List Char)} {c d : String}
    (hx : t x = some (.file c)) (hy : t y = some (.file d)) : ¬Above x y := by
  intro habove
  have hdir := h x y habove (by rw [hy]; exact fun h => by cases h)
  rw [hx] at hdir
  cases hdir

theorem Coexist.not_above (hlower : Lowering lower) (hvacant : Vacant dataDir agentId t)
    (h : Coexist dataDir agentId content t paths) {p q : AcceptedPath lower} (hp : p ∈ paths)
    (hq : q ∈ paths) : ¬Above p.segments q.segments := by
  intro habove
  have hfiles := (h paths (List.Perm.refl _)).2
  have hlayered : Layered (createFiles dataDir agentId content t paths) :=
    Layered.createFiles hvacant.layered paths
  exact Layered.not_above hlayered (hfiles p hp) (hfiles q hq) ((above_filePath_iff hlower).mpr habove)

/-- The accepted paths of an agent can coexist just if none leads through another. -/
theorem coexist_iff (hlower : Lowering lower) (hvacant : Vacant dataDir agentId t)
    (hnodup : paths.Nodup) : Coexist dataDir agentId content t paths ↔
      ∀ p ∈ paths, ∀ q ∈ paths, ¬Above p.segments q.segments := by
  constructor
  · intro h p hp q hq
    exact h.not_above hlower hvacant hp hq
  · intro hfree order horder
    have hstart : Holds dataDir agentId content ([] : List (AcceptedPath lower)) t := hvacant.holds
    obtain ⟨hall, hend⟩ := hstart.run hlower order
      (by rw [List.append_nil]; exact horder.nodup_iff.mpr hnodup)
      (by
        rw [List.append_nil]
        exact fun p hp q hq => hfree p (horder.mem_iff.mp hp) q (horder.mem_iff.mp hq))
    refine ⟨hall, fun p hp => hend.file p ?_⟩
    rw [List.append_nil]
    exact List.mem_reverse.mpr (horder.mem_iff.mpr hp)

theorem vacant_none (dataDir agentId : String) : Vacant dataDir agentId fun _ => none :=
  ⟨fun _ _ _ h => absurd rfl h, fun _ _ => rfl, fun _ _ _ h => by cases h⟩

theorem accepted_note : validatePath asciiLower "a.md" = .ok "a.md" := by decide +kernel

theorem accepted_nested : validatePath asciiLower "a.md/b.md" = .ok "a.md/b.md" := by decide +kernel

theorem accepted_beside : validatePath asciiLower "b/c.md" = .ok "b/c.md" := by decide +kernel

/-- A file, and a file in a directory beside it. -/
def besideEachOther : List (AcceptedPath asciiLower) :=
  [⟨"a.md", "a.md", accepted_note⟩, ⟨"b/c.md", "b/c.md", accepted_beside⟩]

theorem coexist_iff_beside :
    (∀ p ∈ besideEachOther, ∀ q ∈ besideEachOther, ¬Above p.segments q.segments) ∧
      (Coexist "/data" "agent" (fun _ => "text") (fun _ => none) besideEachOther ↔
        ∀ p ∈ besideEachOther, ∀ q ∈ besideEachOther, ¬Above p.segments q.segments) :=
  ⟨by decide +kernel, coexist_iff lowering_ascii (vacant_none _ _) (by simp [besideEachOther])⟩

/-- `a.md` is a file, or the directory of `a.md/b.md`. -/
theorem coexist_nested : ¬Coexist "/data" "agent" (fun _ => "text") (fun _ => none)
    [(⟨"a.md", "a.md", accepted_note⟩ : AcceptedPath asciiLower),
      ⟨"a.md/b.md", "a.md/b.md", accepted_nested⟩] := by
  intro h
  refine h.not_above lowering_ascii (vacant_none _ _) List.mem_cons_self
    (List.mem_cons_of_mem _ List.mem_cons_self) ?_
  decide +kernel

end Run

end Hill90.Knowledge
