import Hill90.Knowledge.Store
import Mathlib.Data.List.Forall2

/-! # Canonical paths

What `validate_path` accepts is a fixed point of it, and lies below the directory of any agent.
-/

namespace Hill90.Knowledge

structure PurePath where
  root : Bool
  parts : List (List Char)
  deriving DecidableEq, Repr

namespace PurePath

def ofText (text : String) : PurePath where
  root := text.toList.head? = some '/'
  parts := (text.toList.splitOn '/').filter fun part => part ≠ [] ∧ part ≠ ['.']

def div (p : PurePath) (text : String) : PurePath :=
  if (ofText text).root then ofText text else ⟨p.root, p.parts ++ (ofText text).parts⟩

/-- The names that are left once each `..` has taken back the one before it. -/
def normal (p : PurePath) : List (List Char) :=
  p.parts.foldl (fun names part => if part = ['.', '.'] then names.dropLast else names ++ [part]) []

def Below (p directory : PurePath) : Prop :=
  ∃ names, names ≠ [] ∧ p.root = directory.root ∧ p.parts = directory.parts ++ names ∧
    p.normal = directory.normal ++ names

end PurePath

def agentDirectory (dataDir agentId : String) : PurePath :=
  ((PurePath.ofText dataDir).div "agents").div agentId

def resolveFilePath (dataDir agentId path : String) : PurePath :=
  (agentDirectory dataDir agentId).div path

/-- `str.lower` takes each character to some, none but a dot to a dot and none but a slash to a slash,
and leaves the characters of a path. -/
structure Lowering (lower : String → String) : Prop where
  pieces (s : String) : ∃ pieces : List (List Char), (lower s).toList = pieces.flatten ∧
    List.Forall₂ (fun c piece => piece ≠ [] ∧
      ∀ d ∈ piece, d = '.' ∨ d = '/' → c = d ∧ piece = [d]) s.toList pieces
  fixed (s : String) : (∀ c ∈ s.toList, isPathChar c = true ∨ c = '.') → lower s = s

/-- What is asked of an accepted path. -/
structure Canonical (lower : String → String) (path : String) : Prop where
  fixed : validatePath lower path = .ok path
  segments : ∀ segment ∈ path.toList.splitOn '/',
    segment ≠ [] ∧ segment ≠ ['.'] ∧ segment ≠ ['.', '.']
  depth : (path.toList.splitOn '/').length ≤ maxDepth
  confined (dataDir agentId : String) :
    (resolveFilePath dataDir agentId path).Below (agentDirectory dataDir agentId)

/-- No dot follows a slash or a dot. -/
def Undotted : Char → List Char → Prop
  | _, [] => True
  | previous, c :: s => (c = '.' → previous ≠ '/' ∧ previous ≠ '.') ∧ Undotted c s

/-- No slash follows a slash or ends the text. -/
def Undivided : Char → List Char → Prop
  | previous, [] => previous ≠ '/'
  | previous, c :: s => (c = '/' → previous ≠ '/') ∧ Undivided c s

section Undotted

variable {previous c : Char} {s t : List Char}

theorem undotted_of_pairs
    (h : ∀ a x b, previous :: s = a ++ x :: '.' :: b → x ≠ '/' ∧ x ≠ '.') : Undotted previous s := by
  induction s generalizing previous with
  | nil => trivial
  | cons c s ih =>
    constructor
    · rintro rfl
      exact h [] previous s rfl
    · apply ih
      intro a x b heq
      exact h (previous :: a) x b (by rw [heq, List.cons_append])

theorem Undotted.weaken (h : Undotted c s) (hslash : previous ≠ '/') (hdot : previous ≠ '.') :
    Undotted previous s := by
  cases s with
  | nil => trivial
  | cons d s => exact ⟨fun _ => ⟨hslash, hdot⟩, h.2⟩

theorem Undotted.of_head (h : Undotted c s) (hhead : s.head? ≠ some '.') : Undotted previous s := by
  cases s with
  | nil => trivial
  | cons d s =>
    refine ⟨fun hd => ?_, h.2⟩
    rw [hd] at hhead
    exact absurd rfl hhead

theorem Undotted.of_append (h : Undotted previous (s ++ t)) : Undotted previous s := by
  induction s generalizing previous with
  | nil => trivial
  | cons d s ih => exact ⟨h.1, ih h.2⟩

theorem Undotted.append (hs : s ≠ []) (hplain : ∀ d ∈ s, d ≠ '/' ∧ d ≠ '.') (ht : Undotted c t) :
    Undotted previous (s ++ t) := by
  induction s generalizing previous with
  | nil => exact absurd rfl hs
  | cons d s ih =>
    obtain ⟨hslash, hdot⟩ := hplain d List.mem_cons_self
    refine ⟨fun hd => absurd hd hdot, ?_⟩
    cases s with
    | nil => exact ht.weaken hslash hdot
    | cons e s =>
      exact ih (List.cons_ne_nil e s) fun d hd => hplain d (List.mem_cons_of_mem _ hd)

theorem Undotted.lower {pieces : List (List Char)} (h : Undotted previous s)
    (hpieces : List.Forall₂ (fun c piece => piece ≠ [] ∧
      ∀ d ∈ piece, d = '.' ∨ d = '/' → c = d ∧ piece = [d]) s pieces) :
    Undotted previous pieces.flatten := by
  induction hpieces generalizing previous with
  | nil => trivial
  | @cons c piece s pieces hpiece _ ih =>
    rw [List.flatten_cons]
    by_cases hspecial : ∃ d ∈ piece, d = '.' ∨ d = '/'
    · obtain ⟨d, hd, hmark⟩ := hspecial
      obtain ⟨rfl, rfl⟩ := hpiece.2 d hd hmark
      exact ⟨h.1, ih h.2⟩
    · apply Undotted.append hpiece.1 _ (ih h.2)
      intro d hd
      exact ⟨fun hslash => hspecial ⟨d, hd, .inr hslash⟩, fun hdot => hspecial ⟨d, hd, .inl hdot⟩⟩

theorem Undotted.dropWhile (h : Undotted '/' s) : Undotted '/' (s.dropWhile (· = '/')) := by
  induction s with
  | nil => trivial
  | cons d s ih =>
    rw [List.dropWhile_cons]
    split
    · next hd =>
      rw [of_decide_eq_true hd] at h
      exact ih h.2
    · exact h

theorem Undotted.strip (h : Undotted '/' s) : Undotted '/' (stripSlashes s) := by
  obtain ⟨rest, hrest⟩ := List.rdropWhile_prefix (fun c => decide (c = '/')) (l := s.dropWhile (· = '/'))
  have hdrop := h.dropWhile
  rw [← hrest] at hdrop
  exact hdrop.of_append

theorem head_collapse (s : List Char) : (collapse s).head? = s.head? := by
  induction s with
  | nil => rfl
  | cons c s ih =>
    rw [collapse]
    split
    · next h => rw [ih, h.1, h.2, List.head?_cons]
    · rfl

theorem Undotted.collapse (h : Undotted previous s) : Undotted previous (collapse s) := by
  induction s generalizing previous with
  | nil => trivial
  | cons c s ih =>
    rw [Knowledge.collapse]
    split
    · next hdouble =>
      refine (ih h.2).of_head ?_
      rw [head_collapse, hdouble.2]
      decide
    · exact ⟨h.1, ih h.2⟩

theorem Undotted.not_infix (h : Undotted previous s) : ¬['.', '.'] <:+: s := by
  rintro ⟨a, b, rfl⟩
  induction a generalizing previous with
  | nil => exact (h.2.1 rfl).2 rfl
  | cons d a ih => exact ih h.2

end Undotted

section Undivided

variable {previous c : Char} {s : List Char}

theorem Undivided.of_collapse (hs : s ≠ []) (hlast : s.getLast? ≠ some '/')
    (hhead : s.head? = some '/' → previous ≠ '/') : Undivided previous (collapse s) := by
  induction s generalizing previous with
  | nil => exact absurd rfl hs
  | cons c s ih =>
    rw [collapse]
    split
    · next hdouble =>
      have hne : s ≠ [] := by
        rintro rfl
        exact absurd hdouble.2 nofun
      refine ih hne ?_ fun _ => hhead (congrArg some hdouble.1)
      rwa [List.getLast?_cons_of_ne_nil hne] at hlast
    · next hsingle =>
      refine ⟨fun hc => hhead (congrArg some hc), ?_⟩
      by_cases hne : s = []
      · subst hne
        exact fun hc => hlast (congrArg some hc)
      · refine ih hne ?_ fun hslash hc => hsingle ⟨hc, hslash⟩
        rwa [List.getLast?_cons_of_ne_nil hne] at hlast

theorem Undivided.strip (h : stripSlashes s ≠ []) :
    Undivided '/' (collapse (stripSlashes s)) := by
  apply Undivided.of_collapse h
  · rw [List.getLast?_eq_some_getLast h]
    intro hlast
    exact List.rdropWhile_last_not _ _ h (decide_eq_true (Option.some.inj hlast))
  · intro hhead
    have hprefix : stripSlashes s <+: s.dropWhile (· = '/') := List.rdropWhile_prefix _ _
    obtain ⟨rest, hrest⟩ := hprefix
    have hdrop := List.head?_dropWhile_not (fun c => decide (c = '/')) s
    rw [← hrest, List.head?_append, hhead] at hdrop
    simp at hdrop

theorem Undivided.collapse_eq (h : Undivided previous s) : collapse s = s := by
  induction s generalizing previous with
  | nil => rfl
  | cons c s ih =>
    rw [collapse, if_neg, ih h.2]
    rintro ⟨rfl, hhead⟩
    cases s with
    | nil => cases hhead
    | cons d s => exact h.2.1 (Option.some.inj hhead) rfl

theorem Undivided.last (h : Undivided previous s) : (previous :: s).getLast? ≠ some '/' := by
  induction s generalizing previous with
  | nil => exact fun hlast => h (Option.some.inj hlast)
  | cons c s ih =>
    rw [List.getLast?_cons_cons]
    exact ih h.2

theorem Undivided.strip_eq (h : Undivided '/' s) : stripSlashes s = s := by
  cases s with
  | nil => rfl
  | cons c s =>
    have hc : c ≠ '/' := fun hc => h.1 hc rfl
    rw [stripSlashes, List.dropWhile_cons_of_neg (by simpa using hc), List.rdropWhile_eq_self_iff]
    intro hne
    have hlast := h.2.last
    rw [List.getLast?_eq_some_getLast hne] at hlast
    simpa using hlast

def Proper (segment : List Char) : Prop := segment ≠ [] ∧ segment.head? ≠ some '.'

/-- The segments of a text, of which the first goes on with what stands before it. -/
theorem proper_segments (hdots : Undotted previous s) (hslashes : Undivided previous s) :
    ∃ first rest, s.splitOn '/' = first :: rest ∧ (previous = '/' → Proper first) ∧
      ∀ segment ∈ rest, Proper segment := by
  induction s generalizing previous with
  | nil => exact ⟨[], [], rfl, fun h => absurd h hslashes, nofun⟩
  | cons c s ih =>
    obtain ⟨first, rest, hsplit, hfirst, hrest⟩ := ih hdots.2 hslashes.2
    rw [List.splitOn_cons_eq_if_modifyHead, hsplit]
    by_cases hc : c = '/'
    · rw [if_pos (beq_iff_eq.mpr hc)]
      refine ⟨[], first :: rest, rfl, fun h => absurd h (hslashes.1 hc), ?_⟩
      intro segment hmem
      obtain rfl | hmem := List.mem_cons.mp hmem
      · exact hfirst hc
      · exact hrest segment hmem
    · rw [if_neg (by simpa using hc)]
      refine ⟨c :: first, rest, rfl, fun h => ⟨List.cons_ne_nil c first, fun hdot => ?_⟩, hrest⟩
      exact (hdots.1 (Option.some.inj hdot)).1 h

end Undivided

section Validate

variable {lower : String → String} {path p : String}

theorem undotted_of_checks {s : List Char} (hdots : ¬['.', '.'] <:+: s)
    (hhidden : ∀ segment ∈ s.splitOn '/', segment.head? ≠ some '.') : Undotted '/' s := by
  have hdotfile : ∀ b : List Char, ∃ segment ∈ ('.' :: b).splitOn '/', segment.head? = some '.' := by
    intro b
    obtain ⟨first, rest, hsplit⟩ := List.exists_cons_of_ne_nil (List.splitOn_ne_nil '/' b)
    refine ⟨'.' :: first, ?_, rfl⟩
    rw [List.splitOn_cons_eq_if_modifyHead, hsplit]
    exact List.mem_cons_self
  apply undotted_of_pairs
  intro a x b heq
  cases a with
  | nil =>
    rw [List.nil_append, List.cons.injEq] at heq
    obtain ⟨segment, hmem, hhead⟩ := hdotfile b
    rw [← heq.2] at hmem
    exact absurd hhead (hhidden segment hmem)
  | cons e a =>
    rw [List.cons_append, List.cons.injEq] at heq
    constructor
    · rintro rfl
      obtain ⟨segment, hmem, hhead⟩ := hdotfile b
      refine hhidden segment ?_ hhead
      rw [heq.2, List.splitOn_append_cons_self]
      exact List.mem_append_right _ hmem
    · rintro rfl
      exact hdots ⟨a, b, by rw [heq.2, List.append_assoc]; rfl⟩

theorem validatePath_eq_ok : validatePath lower path = .ok p ↔
    path.toList.head? ≠ some '/' ∧ ¬['.', '.'] <:+: path.toList ∧
      (∀ segment ∈ path.toList.splitOn '/', segment.head? ≠ some '.') ∧
        validChars (canonicalizePath lower path) = true ∧
          ".md".toList <:+ canonicalizePath lower path ∧
            ((canonicalizePath lower path).splitOn '/').length ≤ maxDepth ∧
              p = String.ofList (canonicalizePath lower path) := by
  unfold validatePath
  by_cases habsolute : path.toList.head? = some '/'
  · simp [habsolute]
  by_cases hdots : ['.', '.'] <:+: path.toList
  · simp [habsolute, hdots]
  rw [if_neg habsolute, if_neg hdots]
  by_cases hhidden : (path.toList.splitOn '/').any (fun segment => segment.head? = some '.') = true
  · rw [if_pos hhidden]
    refine iff_of_false nofun fun h => ?_
    obtain ⟨segment, hmem, hhead⟩ := List.any_eq_true.mp hhidden
    exact h.2.2.1 segment hmem (of_decide_eq_true hhead)
  · have hshown : ∀ segment ∈ path.toList.splitOn '/', segment.head? ≠ some '.' := by
      intro segment hmem hhead
      exact hhidden (List.any_eq_true.mpr ⟨segment, hmem, decide_eq_true hhead⟩)
    rw [if_neg hhidden]
    dsimp only
    by_cases hchars : validChars (canonicalizePath lower path) = true
    · by_cases hsuffix : ".md".toList <:+ canonicalizePath lower path
      · by_cases hdepth : ((canonicalizePath lower path).splitOn '/').length > maxDepth
        · rw [hchars, if_neg (by decide), if_neg (not_not.mpr hsuffix), if_pos hdepth]
          refine iff_of_false nofun fun h => ?_
          exact absurd h.2.2.2.2.2.1 (Nat.not_le.mpr hdepth)
        · rw [hchars, if_neg (by decide), if_neg (not_not.mpr hsuffix), if_neg hdepth,
            Except.ok.injEq]
          constructor
          · intro hp
            exact ⟨habsolute, hdots, hshown, rfl, hsuffix, Nat.not_lt.mp hdepth, hp.symm⟩
          · intro h
            exact h.2.2.2.2.2.2.symm
      · rw [hchars, if_neg (by decide), if_pos hsuffix]
        exact iff_of_false nofun fun h => hsuffix h.2.2.2.2.1
    · rw [if_pos (by simpa using hchars)]
      exact iff_of_false nofun fun h => hchars h.2.2.2.1

/-- The newline that the pattern lets through at the end is none of a Markdown file. -/
theorem chars_of_valid {s : List Char} (h : validChars s = true) (hsuffix : ".md".toList <:+ s) :
    s ≠ [] ∧ ∀ c ∈ s, isPathChar c = true ∨ c = '.' := by
  cases s with
  | nil => cases h
  | cons c s =>
    refine ⟨List.cons_ne_nil c s, ?_⟩
    have hlast : s.getLast? ≠ some '\n' := by
      intro hnewline
      obtain ⟨front, hfront⟩ := hsuffix
      have hwhole : (c :: s).getLast? = some '\n' := by
        cases s with
        | nil => cases hnewline
        | cons d s => rwa [List.getLast?_cons_cons]
      have hmd : ".md".toList.getLast? = some 'd' := by decide
      rw [← hfront, List.getLast?_append, hmd] at hwhole
      exact absurd (Option.some.inj hwhole) (by decide)
    rw [validChars] at h
    rw [if_neg hlast, Bool.and_eq_true, List.all_eq_true] at h
    intro d hd
    obtain rfl | hd := List.mem_cons.mp hd
    · exact .inl h.1
    · simpa using h.2 d hd

theorem foldl_normal {names : List (List Char)} (acc : List (List Char))
    (h : ∀ n ∈ names, n ≠ ['.', '.']) :
    names.foldl (fun names part => if part = ['.', '.'] then names.dropLast else names ++ [part]) acc =
      acc ++ names := by
  induction names generalizing acc with
  | nil => simp
  | cons n names ih =>
    rw [List.foldl_cons, if_neg (h n List.mem_cons_self),
      ih _ fun m hm => h m (List.mem_cons_of_mem _ hm), List.append_assoc]
    rfl

theorem div_eq (directory : PurePath) {text : String} (hroot : text.toList.head? ≠ some '/')
    (h : ∀ segment ∈ text.toList.splitOn '/', Proper segment) :
    directory.div text = ⟨directory.root, directory.parts ++ text.toList.splitOn '/'⟩ := by
  have hparts : (PurePath.ofText text).parts = text.toList.splitOn '/' := by
    refine List.filter_eq_self.mpr fun segment hmem => ?_
    obtain ⟨hne, hhead⟩ := h segment hmem
    have hdot : segment ≠ ['.'] := by
      rintro rfl
      exact hhead rfl
    simp [hne, hdot]
  rw [PurePath.div, hparts, if_neg (by simpa [PurePath.ofText] using hroot)]

theorem div_below (directory : PurePath) {text : String} (hroot : text.toList.head? ≠ some '/')
    (h : ∀ segment ∈ text.toList.splitOn '/', Proper segment) :
    (directory.div text).Below directory := by
  have hdiv := div_eq directory hroot h
  refine ⟨text.toList.splitOn '/', List.splitOn_ne_nil _ _, ?_, ?_, ?_⟩
  · rw [hdiv]
  · rw [hdiv]
  · rw [hdiv, PurePath.normal, List.foldl_append, foldl_normal, PurePath.normal]
    intro segment hmem
    rintro rfl
    exact (h _ hmem).2 rfl

theorem proper_of_canonical {s : List Char} (hdots : Undotted '/' s) (hslashes : Undivided '/' s) :
    ∀ segment ∈ s.splitOn '/', Proper segment := by
  obtain ⟨first, rest, hsplit, hfirst, hrest⟩ := proper_segments hdots hslashes
  rw [hsplit]
  intro segment hmem
  obtain rfl | hmem := List.mem_cons.mp hmem
  · exact hfirst rfl
  · exact hrest segment hmem

/-- The checks are made before the path is lowered, stripped and collapsed, and none of the three makes
a segment that begins with a dot. -/
theorem undotted_of_accepted (hlower : Lowering lower) (h : validatePath lower path = .ok p) :
    Undotted '/' p.toList ∧ Undivided '/' p.toList := by
  obtain ⟨-, hdots, hhidden, hchars, hsuffix, -, rfl⟩ := validatePath_eq_ok.mp h
  obtain ⟨hne, -⟩ := chars_of_valid hchars hsuffix
  obtain ⟨pieces, hpieces, hsteps⟩ := hlower.pieces path
  rw [String.toList_ofList]
  have hlowered : Undotted '/' (lower path).toList := by
    rw [hpieces]
    exact (undotted_of_checks hdots hhidden).lower hsteps
  refine ⟨hlowered.strip.collapse, ?_⟩
  apply Undivided.strip
  intro hnil
  rw [canonicalizePath, hnil] at hne
  exact hne rfl

theorem head_of_undivided {s : List Char} (h : Undivided '/' s) : s.head? ≠ some '/' := by
  cases s with
  | nil => exact fun hs => by cases hs
  | cons c s => exact fun hc => h.1 (Option.some.inj hc) rfl

/-- Whatever `validate_path` accepts, it makes canonical. -/
theorem validatePath_canonical (hlower : Lowering lower) (h : validatePath lower path = .ok p) :
    Canonical lower p := by
  obtain ⟨hundotted, hundivided⟩ := undotted_of_accepted hlower h
  obtain ⟨-, -, -, hchars, hsuffix, hdepth, rfl⟩ := validatePath_eq_ok.mp h
  obtain ⟨-, hplain⟩ := chars_of_valid hchars hsuffix
  rw [String.toList_ofList] at hundotted hundivided
  have hproper := proper_of_canonical hundotted hundivided
  generalize canonicalizePath lower path = s at *
  -- a second pass finds nothing left to lower, strip or collapse
  have hhead := head_of_undivided hundivided
  have hfixed : canonicalizePath lower (String.ofList s) = s := by
    rw [canonicalizePath, hlower.fixed _ (by rwa [String.toList_ofList]), String.toList_ofList,
      hundivided.strip_eq, hundivided.collapse_eq]
  constructor
  · rw [validatePath_eq_ok, hfixed, String.toList_ofList]
    exact ⟨hhead, hundotted.not_infix, fun segment hmem => (hproper segment hmem).2, hchars, hsuffix,
      hdepth, rfl⟩
  · rw [String.toList_ofList]
    intro segment hmem
    obtain ⟨hempty, hdot⟩ := hproper segment hmem
    refine ⟨hempty, ?_, ?_⟩
    · rintro rfl
      exact hdot rfl
    · rintro rfl
      exact hdot rfl
  · rwa [String.toList_ofList]
  · intro dataDir agentId
    apply div_below
    · rwa [String.toList_ofList]
    · rwa [String.toList_ofList]

end Validate

section Ascii

def asciiLower (s : String) : String := String.ofList (s.toList.map Char.toLower)

theorem toLower_eq_iff {c d : Char} (hd : d.toNat < 65) : c.toLower = d ↔ c = d := by
  unfold Char.toLower
  split
  · next h =>
    have hlow : 65 ≤ c.val.toNat := UInt32.le_iff_toNat_le.mp h.1
    have hhigh : c.val.toNat ≤ 90 := UInt32.le_iff_toNat_le.mp h.2
    have hletter : (c.val + ('a'.val - 'A'.val)).toNat = c.val.toNat + 32 := by
      have hstep : ('a'.val - 'A'.val).toNat = 32 := by decide
      rw [UInt32.toNat_add, hstep]
      exact Nat.mod_eq_of_lt (by omega)
    refine iff_of_false (fun heq => ?_) fun heq => ?_
    · have hval : (c.val + ('a'.val - 'A'.val)).toNat = d.toNat := congrArg Char.toNat heq
      omega
    · have hval : c.val.toNat = d.toNat := congrArg Char.toNat heq
      omega
  · rfl

theorem toLower_pathChar {c : Char} (h : isPathChar c = true ∨ c = '.') : c.toLower = c := by
  refine dif_neg fun hupper => ?_
  have hlow : 65 ≤ c.val.toNat := UInt32.le_iff_toNat_le.mp hupper.1
  have hhigh : c.val.toNat ≤ 90 := UInt32.le_iff_toNat_le.mp hupper.2
  obtain h | rfl := h
  · obtain h | h | rfl | rfl | rfl := of_decide_eq_true h
    · have ha : 97 ≤ c.val.toNat := UInt32.le_iff_toNat_le.mp h.1
      omega
    · have hnine : c.val.toNat ≤ 57 := UInt32.le_iff_toNat_le.mp h.2
      omega
    · exact absurd hhigh (by decide)
    · exact absurd hlow (by decide)
    · exact absurd hlow (by decide)
  · exact absurd hlow (by decide)

theorem lowering_ascii : Lowering asciiLower := by
  constructor
  · intro s
    refine ⟨s.toList.map fun c => [c.toLower], ?_, ?_⟩
    · rw [asciiLower, String.toList_ofList]
      induction s.toList with
      | nil => rfl
      | cons c l ih => rw [List.map_cons, List.map_cons, List.flatten_cons, ← ih, List.singleton_append]
    · rw [List.forall₂_map_right_iff, List.forall₂_same]
      intro c _
      refine ⟨List.cons_ne_nil _ _, fun d hd hmark => ?_⟩
      have hlower : c.toLower = d := (List.mem_singleton.mp hd).symm
      have hsmall : d.toNat < 65 := by
        obtain rfl | rfl := hmark <;> decide
      exact ⟨(toLower_eq_iff hsmall).mp hlower, by rw [hlower]⟩
  · intro s h
    have hsame : s.toList.map Char.toLower = s.toList := by
      conv_rhs => rw [← List.map_id s.toList]
      exact List.map_congr_left fun c hc => toLower_pathChar (h c hc)
    rw [asciiLower, hsame, String.ofList_toList]

theorem validatePath_canonical_notes : Canonical asciiLower "notes/2024/plan.md" := by
  have haccepted : validatePath asciiLower "Notes//2024/plan.md/" = .ok "notes/2024/plan.md" := by
    decide +kernel
  exact validatePath_canonical lowering_ascii haccepted

end Ascii

end Hill90.Knowledge
