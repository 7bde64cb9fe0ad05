import Hill90.Agentbox.Authority
import Hill90.Foundation.Segments

/-! # Resolved paths

What `os.path.realpath` returns is the root directory or names behind slashes; `PathPolicy` compares
the texts.
-/

namespace Hill90.Agentbox

open Skills (FilesystemConfig)
open Segments

structure Name where
  text : List Char
  nonempty : text ≠ []
  single : '/' ∉ text
  deriving DecidableEq

abbrev Directory := List Name

namespace Directory

def path (d : Directory) : String :=
  if d = [] then "/" else String.ofList (joined '/' (d.map Name.text))

end Directory

variable {Regex : Type}

def Host.resolving (host : Host Regex) (resolve : String → Option Directory) : Host Regex :=
  { host with realpath := fun path => (resolve path).map Directory.path }

def Decided (allowed denied : List Directory) (real : Directory) : Prop :=
  (∃ d ∈ allowed, d <+: real) ∧ ¬∃ d ∈ denied, d <+: real

def Permitted (boot now : String → Option Directory) (config : FilesystemConfig) (path : String) :
    Prop :=
  ∃ real, now path = some real ∧
    Decided ((pathsOf config).filterMap boot) (config.deniedPaths.filterMap boot) real

/-- The root directory among the lists does not matter to the path. -/
def RootIdle (boot now : String → Option Directory) (config : FilesystemConfig) (path : String) :
    Prop :=
  ∀ real, now path = some real → real ≠ [] →
    (Decided ((pathsOf config).filterMap boot) (config.deniedPaths.filterMap boot) real ↔
      Decided (((pathsOf config).filterMap boot).filter (· ≠ []))
        ((config.deniedPaths.filterMap boot).filter (· ≠ [])) real)

section Within

variable {d real : Directory}

theorem text_injective : Function.Injective Name.text := by
  rintro ⟨text, _, _⟩ ⟨text', _, _⟩ h
  cases h
  rfl

theorem single_of_mem {n : List Char} (hn : n ∈ d.map Name.text) : '/' ∉ n := by
  obtain ⟨name, _, rfl⟩ := List.mem_map.mp hn
  exact name.single

theorem path_nil : Directory.path [] = "/" := rfl

theorem path_toList (h : d ≠ []) : d.path.toList = joined '/' (d.map Name.text) := by
  rw [Directory.path, if_neg h, String.toList_ofList]

/-- A directory with a name has a path that begins so. -/
theorem path_cons (n : Name) (d : Directory) :
    (Directory.path (n :: d)).toList = '/' :: (n.text ++ joined '/' (d.map Name.text)) := by
  rw [path_toList (List.cons_ne_nil n d), List.map_cons, joined_cons]

theorem path_injective (h : d.path = real.path) : d = real := by
  have htext := congrArg String.toList h
  cases d with
  | nil =>
    cases real with
    | nil => rfl
    | cons n real =>
      rw [path_cons, path_nil] at htext
      have hnil := (List.cons.inj htext).2
      exact absurd (List.append_eq_nil_iff.mp hnil.symm).1 n.nonempty
  | cons n d =>
    cases real with
    | nil =>
      rw [path_cons, path_nil] at htext
      have hnil := (List.cons.inj htext).2
      exact absurd (List.append_eq_nil_iff.mp hnil).1 n.nonempty
    | cons m real =>
      have hnames : (n :: d).map Name.text = (m :: real).map Name.text := by
        rw [path_toList (List.cons_ne_nil n d), path_toList (List.cons_ne_nil m real)] at htext
        have hpre := (closed_prefix_iff (fun _ h => single_of_mem h)
          (fun _ h => single_of_mem h)).mp (by rw [htext] :
            joined '/' ((n :: d).map Name.text) ++ ['/'] <+:
              joined '/' ((m :: real).map Name.text) ++ ['/'])
        have hpost := (closed_prefix_iff (fun _ h => single_of_mem h)
          (fun _ h => single_of_mem h)).mp (by rw [htext] :
            joined '/' ((m :: real).map Name.text) ++ ['/'] <+:
              joined '/' ((n :: d).map Name.text) ++ ['/'])
        exact hpre.eq_of_length_le hpost.length_le
      exact List.map_injective_iff.mpr text_injective hnames

theorem within_iff : within real.path d.path = true ↔ real = d ∨ d ≠ [] ∧ d <+: real := by
  have hpath : real.path = d.path ↔ real = d := ⟨path_injective, congrArg _⟩
  have hslash : ("/" : String).toList = ['/'] := by decide
  rw [within, Bool.or_eq_true, decide_eq_true_iff, List.isPrefixOf_iff_prefix, String.toList_append,
    hslash, hpath]
  cases d with
  | nil =>
    -- two slashes begin no resolved path
    refine or_congr_right (iff_of_false (fun h => ?_) (fun h => h.1 rfl))
    rw [path_nil, hslash] at h
    cases real with
    | nil =>
      rw [path_nil, hslash] at h
      exact absurd h (by decide)
    | cons n real =>
      rw [path_cons, List.cons_append, List.cons_prefix_cons] at h
      obtain ⟨c, text, htext⟩ := List.exists_cons_of_ne_nil n.nonempty
      rw [htext, List.cons_append, List.nil_append, List.cons_prefix_cons] at h
      have hmem : '/' ∈ n.text := by
        rw [htext, ← h.2.1]
        exact List.mem_cons_self
      exact n.single hmem
  | cons n d =>
    cases real with
    | nil =>
      refine or_congr_right (iff_of_false (fun h => ?_) (by simp))
      rw [path_nil, hslash, path_cons] at h
      simp at h
    | cons m real =>
      have hdescends : joined '/' ((m :: real).map Name.text) = joined '/' ((n :: d).map Name.text) ∨
          joined '/' ((n :: d).map Name.text) ++ ['/'] <+: joined '/' ((m :: real).map Name.text) ↔
            (n :: d).map Name.text <+: (m :: real).map Name.text :=
        descends_iff (fun _ h => single_of_mem h) (fun _ h => single_of_mem h)
      rw [List.prefix_map_iff_of_injective text_injective,
        ← path_toList (List.cons_ne_nil n d), ← path_toList (List.cons_ne_nil m real),
        String.toList_inj, hpath] at hdescends
      rw [hdescends]
      constructor
      · intro h
        exact .inr ⟨List.cons_ne_nil n d, h⟩
      · rintro (heq | ⟨-, h⟩)
        · rw [heq]
        · exact h

theorem within_of_ne (h : real ≠ []) :
    within real.path d.path = true ↔ d ≠ [] ∧ d <+: real := by
  rw [within_iff]
  constructor
  · rintro (rfl | h')
    · exact ⟨h, List.prefix_rfl⟩
    · exact h'
  · exact .inr

theorem within_root : within (Directory.path []) d.path = true ↔ d <+: [] := by
  rw [within_iff, List.prefix_nil]
  constructor
  · rintro (h | h)
    · exact h.symm
    · exact h.2
  · exact fun h => .inl h.symm

end Within

section Policy

variable {host host' : Host Regex} {boot now : String → Option Directory}
  {config : FilesystemConfig} {path : String} {policy : PathPolicy}

theorem mem_resolved {paths : List String} {resolved : List String}
    (h : paths.mapM (host.resolving boot).realpath = some resolved) (directory : String) :
    directory ∈ resolved ↔ ∃ d ∈ paths.filterMap boot, d.path = directory := by
  rw [mem_of_mapM h]
  simp only [Host.resolving, Option.map_eq_some_iff, List.mem_filterMap]
  constructor
  · rintro ⟨p, hp, d, hd, rfl⟩
    exact ⟨d, ⟨p, hp, hd⟩, rfl⟩
  · rintro ⟨d, ⟨p, hp, hd⟩, rfl⟩
    exact ⟨p, hp, d, hd, rfl⟩

theorem resolved_check_iff (h : PathPolicy.init (host.resolving boot) config = some policy) :
    policy.checkRead (host'.resolving now) path = .allowed ↔
      ∃ real, now path = some real ∧
        (∃ d ∈ (pathsOf config).filterMap boot, within real.path d.path = true) ∧
          ¬∃ d ∈ config.deniedPaths.filterMap boot, within real.path d.path = true := by
  obtain ⟨allowed, denied, hallowed, hdenied, rfl⟩ := pathInit_eq_some_iff.mp h
  rw [checkRead_eq_allowed_iff]
  simp only [Host.resolving, Option.map_eq_some_iff]
  constructor
  · rintro ⟨_, ⟨real, hreal, rfl⟩, hclear, directory, hmem, hwithin⟩
    obtain ⟨d, hd, rfl⟩ := (mem_resolved hallowed directory).mp hmem
    refine ⟨real, hreal, ⟨d, hd, hwithin⟩, ?_⟩
    rintro ⟨d', hd', hwithin'⟩
    rw [hclear _ ((mem_resolved hdenied _).mpr ⟨d', hd', rfl⟩)] at hwithin'
    cases hwithin'
  · rintro ⟨real, hreal, ⟨d, hd, hwithin⟩, hclear⟩
    refine ⟨_, ⟨real, hreal, rfl⟩, fun directory hmem => ?_,
      d.path, (mem_resolved hallowed _).mpr ⟨d, hd, rfl⟩, hwithin⟩
    obtain ⟨d', hd', rfl⟩ := (mem_resolved hdenied directory).mp hmem
    exact Bool.eq_false_iff.mpr fun hwithin' => hclear ⟨d', hd', hwithin'⟩

/-- Below the root directory the check decides by the other directories. -/
theorem check_below_root {real : Directory}
    (h : PathPolicy.init (host.resolving boot) config = some policy) (hreal : now path = some real)
    (hne : real ≠ []) : policy.checkRead (host'.resolving now) path = .allowed ↔
      Decided (((pathsOf config).filterMap boot).filter (· ≠ []))
        ((config.deniedPaths.filterMap boot).filter (· ≠ [])) real := by
  rw [resolved_check_iff h]
  simp only [hreal, Option.some.injEq, exists_eq_left', Decided, List.mem_filter,
    decide_eq_true_eq, within_of_ne hne, and_assoc]

theorem check_at_root (h : PathPolicy.init (host.resolving boot) config = some policy)
    (hreal : now path = some []) : policy.checkRead (host'.resolving now) path = .allowed ↔
      Permitted boot now config path := by
  rw [resolved_check_iff h]
  simp only [hreal, Option.some.injEq, exists_eq_left', Permitted, Decided, within_root]

theorem checkRead_permitted_iff (h : PathPolicy.init (host.resolving boot) config = some policy) :
    (policy.checkRead (host'.resolving now) path = .allowed ↔ Permitted boot now config path) ↔
      RootIdle boot now config path := by
  cases hreal : now path with
  | none =>
    rw [resolved_check_iff h]
    simp [RootIdle, Permitted, hreal]
  | some real =>
    by_cases hne : real = []
    · subst hne
      refine iff_of_true (check_at_root h hreal) fun real' hreal' hne' => ?_
      cases hreal.symm.trans hreal'
      exact absurd rfl hne'
    · rw [check_below_root h hreal hne]
      simp only [RootIdle, Permitted, hreal, Option.some.injEq, exists_eq_left', forall_eq']
      constructor
      · intro hiff _
        exact hiff.symm
      · intro hiff
        exact (hiff hne).symm

/-- A policy decides by path components, for reading and for writing, exactly where the root directory
does not matter to the path. -/
theorem policy_decides_iff (h : PathPolicy.init (host.resolving boot) config = some policy) :
    ((policy.checkRead (host'.resolving now) path = .allowed ↔ Permitted boot now config path) ∧
        (policy.readOnly = false → (policy.checkWrite (host'.resolving now) path = .allowed ↔
          Permitted boot now config path))) ↔
      RootIdle boot now config path := by
  rw [← checkRead_permitted_iff h]
  constructor
  · exact And.left
  · intro hread
    refine ⟨hread, fun hwritable => ?_⟩
    rw [PathPolicy.checkWrite, hwritable]
    exact hread

end Policy

section Examples

def tmp : Name where
  text := ['t', 'm', 'p']
  nonempty := by decide
  single := by decide

def resolve : String → Option Directory
  | "/" => some []
  | "/tmp" => some [tmp]
  | _ => none

theorem policy_decides_tmp :
    (((⟨["/tmp"], [], false⟩ : PathPolicy).checkRead (plainHost.resolving resolve) "/tmp" = .allowed ↔
          Permitted resolve resolve { enabled := true, allowedPaths := ["/tmp"] } "/tmp") ∧
        (false = false → ((⟨["/tmp"], [], false⟩ : PathPolicy).checkWrite (plainHost.resolving resolve)
          "/tmp" = .allowed ↔
            Permitted resolve resolve { enabled := true, allowedPaths := ["/tmp"] } "/tmp"))) ↔
      RootIdle resolve resolve { enabled := true, allowedPaths := ["/tmp"] } "/tmp" := by
  have hinit : PathPolicy.init (plainHost.resolving resolve)
      { enabled := true, allowedPaths := ["/tmp"] } = some ⟨["/tmp"], [], false⟩ := by
    decide
  exact policy_decides_iff hinit

/-- With the root directory allowed, nothing below it is. -/
theorem root_allows_nothing :
    ¬∀ (config : FilesystemConfig) (path : String) (policy : PathPolicy),
      PathPolicy.init (plainHost.resolving resolve) config = some policy →
        (policy.checkRead (plainHost.resolving resolve) path = .allowed ↔
          Permitted resolve resolve config path) := by
  intro h
  have hroot := h { enabled := true, allowedPaths := ["/"] } "/tmp" ⟨["/"], [], false⟩ (by decide)
  have hpermitted : Permitted resolve resolve { enabled := true, allowedPaths := ["/"] } "/tmp" := by
    refine ⟨[tmp], rfl, ⟨[], ?_, List.nil_prefix⟩, ?_⟩
    · decide
    · simp
  have hrefused : (⟨["/"], [], false⟩ : PathPolicy).checkRead (plainHost.resolving resolve) "/tmp" ≠
      .allowed := by
    decide
  exact hrefused (hroot.mpr hpermitted)

end Examples

end Hill90.Agentbox
