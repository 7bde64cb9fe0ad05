import Mathlib
import Hill90.Foundation.UnionFind

/-! # The groups of a timeline

`computeGroups` of `EventTimeline.tsx`: events of one work item, of one command, or of an inference and
the work step after it, are put together by union-find.
-/

namespace Hill90.View.Groups

open UnionFind Relation

/-- An event; `time` is `new Date(timestamp).getTime()`, none for a `NaN`, and an id of the metadata is
none where it is no string. -/
structure AgentEvent where
  id : String
  type : String
  tool : String
  time : Option ℤ
  workId : Option String
  commandId : Option String
  deriving DecidableEq, Repr

def maxStepGapMs : ℤ := 3000

def signalBTypes : List String := ["work_received", "work_completed"]

section Index

variable {κ : Type} [DecidableEq κ]

abbrev Index (κ : Type) := List (κ × List ℕ)

def push (m : Index κ) (k : κ) (i : ℕ) : Index κ :=
  if m.any fun e => e.1 = k then m.map fun e => if e.1 = k then (e.1, e.2 ++ [i]) else e
  else m ++ [(k, [i])]

def indexFrom (m : Index κ) (i : ℕ) : List (Option κ) → Index κ
  | [] => m
  | none :: keys => indexFrom m (i + 1) keys
  | some k :: keys => indexFrom (push m k i) (i + 1) keys

def pairsOf (m : Index κ) : List (ℕ × ℕ) :=
  m.flatMap fun e => e.2.tail.map fun k => (e.2.headD 0, k)

end Index

/-- `a` and `b` as neighbours: an inference, and a work step at most `maxStepGapMs` later. -/
def stepFollows (a b : AgentEvent) : Bool :=
  a.tool = "inference" && b.tool = "runtime" && b.type ∈ signalBTypes &&
    match b.time, a.time with
    | some tb, some ta => decide (tb - ta ≤ maxStepGapMs)
    | _, _ => false

/-- The adjacent events that are put together, from position `i` on. -/
def stepPairs (i : ℕ) : List AgentEvent → List (ℕ × ℕ)
  | a :: b :: events =>
    if stepFollows a b then (i, i + 1) :: stepPairs (i + 1) (b :: events)
    else stepPairs (i + 1) (b :: events)
  | _ => []

def unionPairs (events : List AgentEvent) : List (ℕ × ℕ) :=
  pairsOf (indexFrom [] 0 (events.map AgentEvent.workId)) ++
    (pairsOf (indexFrom [] 0 (events.map AgentEvent.commandId)) ++ stepPairs 0 events)

def groupId (root : ℕ) : String := "group-" ++ Nat.repr root

def groupSets (events : List AgentEvent) (components : Index ℕ) : List (String × String) :=
  components.flatMap fun e =>
    if e.2.length < 2 then []
    else e.2.filterMap fun i => events[i]?.map fun a => (a.id, groupId e.1)

def setAll (sets : List (String × String)) : String → Option String :=
  sets.foldl (fun m p => Function.update m p.1 (some p.2)) fun _ => none

/-- With at most `fuel` steps for each search. -/
def computeGroups (fuel : ℕ) (events : List AgentEvent) : Option (String → Option String) :=
  if events.length < 2 then some fun _ => none
  else do
    let uf ← Forest.unions fuel {} (unionPairs events)
    let roots ← Forest.finds fuel uf (List.range events.length)
    let components := indexFrom [] 0 (roots.map some)
    pure (setAll (groupSets events components))

/-- The events at two places belong together. -/
inductive Related (events : List AgentEvent) : ℕ → ℕ → Prop where
  | work (i j : ℕ) (a b : AgentEvent) (w : String) : events[i]? = some a → events[j]? = some b →
    a.workId = some w → b.workId = some w → Related events i j
  | command (i j : ℕ) (a b : AgentEvent) (c : String) : events[i]? = some a → events[j]? = some b →
    a.commandId = some c → b.commandId = some c → Related events i j
  | step (i : ℕ) (a b : AgentEvent) : events[i]? = some a → events[i + 1]? = some b →
    stepFollows a b = true → Related events i (i + 1)

def Connected (events : List AgentEvent) : ℕ → ℕ → Prop := EqvGen (Related events)

section Indexed

variable {κ : Type} [DecidableEq κ]

structure Indexed (m : Index κ) (keys : List (Option κ)) : Prop where
  places : ∀ e ∈ m, ∀ j, j ∈ e.2 ↔ keys[j]? = some (some e.1)
  present : ∀ (j : ℕ) (k : κ), keys[j]? = some (some k) → ∃ e ∈ m, e.1 = k
  once : ∀ e ∈ m, e.2.Nodup

variable {m : Index κ} {keys : List (Option κ)}

theorem getElem?_concat {β : Type} (l : List β) (x y : β) (j : ℕ) :
    (l ++ [x])[j]? = some y ↔ l[j]? = some y ∨ (j = l.length ∧ x = y) := by
  rcases lt_trichotomy j l.length with h | rfl | h
  · rw [List.getElem?_append_left h]
    constructor
    · exact .inl
    · rintro (hy | ⟨rfl, -⟩)
      · exact hy
      · exact absurd h (lt_irrefl _)
  · simp
  · rw [List.getElem?_eq_none (by simp; omega), List.getElem?_eq_none h.le]
    constructor
    · exact fun hy => by cases hy
    · rintro (hy | ⟨rfl, -⟩)
      · cases hy
      · exact absurd h (lt_irrefl _)

omit [DecidableEq κ] in
theorem Indexed.skip (h : Indexed m keys) : Indexed m (keys ++ [none]) := by
  refine ⟨fun e he j => ?_, fun j k hj => ?_, h.once⟩
  · rw [h.places e he j, getElem?_concat]
    constructor
    · exact .inl
    · rintro (hj | ⟨-, hj⟩)
      · exact hj
      · cases hj
  · rcases (getElem?_concat _ _ _ _).mp hj with hj | ⟨-, hj⟩
    · exact h.present j k hj
    · cases hj

theorem Indexed.push (h : Indexed m keys) (k : κ) :
    Indexed (push m k keys.length) (keys ++ [some k]) := by
  have hlast : ∀ e ∈ m, keys.length ∉ e.2 := by
    intro e he hmem
    have hplace := (h.places e he _).mp hmem
    rw [List.getElem?_eq_none le_rfl] at hplace
    cases hplace
  unfold Groups.push
  split
  · rename_i hany
    obtain ⟨e₀, he₀, hk₀⟩ := List.any_eq_true.mp hany
    have hk₀ : e₀.1 = k := of_decide_eq_true hk₀
    refine ⟨?_, ?_, ?_⟩
    · intro e he j
      obtain ⟨x, hx, rfl⟩ := List.mem_map.mp he
      rw [getElem?_concat]
      split
      · rename_i hxk
        rw [List.mem_append, List.mem_singleton, h.places x hx j]
        dsimp only
        rw [hxk]
        exact or_congr_right ⟨fun hj => ⟨hj, rfl⟩, fun hj => hj.1⟩
      · rename_i hxk
        rw [h.places x hx j]
        exact ⟨.inl, fun hj => hj.resolve_right fun hj => hxk (Option.some.inj hj.2).symm⟩
    · intro j k' hj
      rcases (getElem?_concat _ _ _ _).mp hj with hj | ⟨-, hj⟩
      · obtain ⟨e, he, hek⟩ := h.present j k' hj
        refine ⟨_, List.mem_map_of_mem he, ?_⟩
        split <;> exact hek
      · cases hj
        refine ⟨_, List.mem_map_of_mem he₀, ?_⟩
        split <;> exact hk₀
    · intro e he
      obtain ⟨x, hx, rfl⟩ := List.mem_map.mp he
      split
      · refine List.Nodup.append (h.once x hx) (List.nodup_singleton _) ?_
        intro j hj hj'
        rw [List.mem_singleton.mp hj'] at hj
        exact hlast x hx hj
      · exact h.once x hx
  · rename_i hnone
    have hnew : ∀ e ∈ m, e.1 ≠ k := fun e he heq =>
      hnone (List.any_eq_true.mpr ⟨e, he, decide_eq_true heq⟩)
    refine ⟨?_, ?_, ?_⟩
    · intro e he j
      rw [getElem?_concat]
      rcases List.mem_append.mp he with he | he
      · rw [h.places e he j]
        exact ⟨.inl, fun hj => hj.resolve_right fun hj => hnew e he (Option.some.inj hj.2).symm⟩
      · rw [List.mem_singleton.mp he, List.mem_singleton]
        constructor
        · exact fun hj => .inr ⟨hj, rfl⟩
        · rintro (hj | ⟨hj, -⟩)
          · obtain ⟨e', he', hek⟩ := h.present j k hj
            exact absurd hek (hnew e' he')
          · exact hj
    · intro j k' hj
      rcases (getElem?_concat _ _ _ _).mp hj with hj | ⟨-, hj⟩
      · obtain ⟨e, he, hek⟩ := h.present j k' hj
        exact ⟨e, List.mem_append_left _ he, hek⟩
      · cases hj
        exact ⟨_, List.mem_append_right _ List.mem_cons_self, rfl⟩
    · intro e he
      rcases List.mem_append.mp he with he | he
      · exact h.once e he
      · rw [List.mem_singleton.mp he]
        exact List.nodup_singleton _

theorem Indexed.from (rest : List (Option κ)) (h : Indexed m keys) :
    Indexed (indexFrom m keys.length rest) (keys ++ rest) := by
  induction rest generalizing m keys with
  | nil => rwa [List.append_nil]
  | cons x rest ih =>
    have hlength : (keys ++ [x]).length = keys.length + 1 := by simp
    rw [List.append_cons]
    cases x with
    | none =>
      have hrest := ih h.skip
      rwa [hlength] at hrest
    | some k =>
      have hrest := ih (h.push k)
      rwa [hlength] at hrest

theorem indexed_indexFrom (keys : List (Option κ)) : Indexed (indexFrom [] 0 keys) keys := by
  have hempty : Indexed ([] : Index κ) [] :=
    ⟨fun e he => absurd he List.not_mem_nil, fun j k h => (by cases h),
      fun e he => absurd he List.not_mem_nil⟩
  exact hempty.from keys

omit [DecidableEq κ] in
theorem Indexed.of_mem_pairsOf (h : Indexed m keys) {i j : ℕ} (hij : (i, j) ∈ pairsOf m) :
    ∃ k, keys[i]? = some (some k) ∧ keys[j]? = some (some k) := by
  obtain ⟨e, he, hpair⟩ := List.mem_flatMap.mp hij
  obtain ⟨x, hx, heq⟩ := List.mem_map.mp hpair
  cases heq
  refine ⟨e.1, (h.places e he _).mp ?_, (h.places e he _).mp (List.mem_of_mem_tail hx)⟩
  cases hlist : e.2 with
  | nil => rw [hlist] at hx; cases hx
  | cons first rest => exact List.mem_cons_self

omit [DecidableEq κ] in
/-- Two places of one key are connected through the first place of it. -/
theorem Indexed.eqvGen (h : Indexed m keys) {i j : ℕ} {k : κ} (hi : keys[i]? = some (some k))
    (hj : keys[j]? = some (some k)) : EqvGen (fun a b => (a, b) ∈ pairsOf m) i j := by
  obtain ⟨e, he, rfl⟩ := h.present i k hi
  have hfirst : ∀ x ∈ e.2, EqvGen (fun a b => (a, b) ∈ pairsOf m) (e.2.headD 0) x := by
    intro x hx
    cases hlist : e.2 with
    | nil => rw [hlist] at hx; cases hx
    | cons first rest =>
      rw [hlist] at hx
      rcases List.mem_cons.mp hx with rfl | hx
      · exact .refl _
      · refine .rel _ _ (List.mem_flatMap.mpr ⟨e, he, ?_⟩)
        rw [hlist]
        exact List.mem_map_of_mem hx
  exact (hfirst i ((h.places e he i).mpr hi)).symm.trans _ _ _ (hfirst j ((h.places e he j).mpr hj))

end Indexed

section Pairs

variable {events : List AgentEvent} {i j : ℕ}

theorem mem_stepPairs {offset : ℕ} : (i, j) ∈ stepPairs offset events ↔
    ∃ k a b, i = offset + k ∧ j = i + 1 ∧ events[k]? = some a ∧ events[k + 1]? = some b ∧
      stepFollows a b = true := by
  induction events generalizing offset with
  | nil => simp [stepPairs]
  | cons a events ih =>
    cases events with
    | nil => simp [stepPairs]
    | cons b events =>
      have hcases : (i, j) ∈ stepPairs offset (a :: b :: events) ↔
          (stepFollows a b = true ∧ i = offset ∧ j = i + 1) ∨
            (i, j) ∈ stepPairs (offset + 1) (b :: events) := by
        rw [stepPairs]
        split
        · rename_i hstep
          rw [List.mem_cons, Prod.mk.injEq]
          constructor
          · rintro (⟨rfl, rfl⟩ | h)
            · exact .inl ⟨hstep, rfl, rfl⟩
            · exact .inr h
          · rintro (⟨-, rfl, rfl⟩ | h)
            · exact .inl ⟨rfl, rfl⟩
            · exact .inr h
        · rename_i hstep
          exact ⟨.inr, fun h => h.resolve_left fun h => hstep h.1⟩
      rw [hcases, ih]
      constructor
      · rintro (⟨hstep, rfl, rfl⟩ | ⟨k, c, d, rfl, hj, hc, hd, hstep⟩)
        · exact ⟨0, a, b, rfl, rfl, rfl, rfl, hstep⟩
        · exact ⟨k + 1, c, d, by omega, hj, hc, hd, hstep⟩
      · rintro ⟨k, c, d, rfl, hj, hc, hd, hstep⟩
        cases k with
        | zero =>
          cases hc
          cases hd
          exact .inl ⟨hstep, rfl, hj⟩
        | succ k => exact .inr ⟨k, c, d, by omega, hj, hc, hd, hstep⟩

theorem of_map_getElem? {f : AgentEvent → Option String} {k : String}
    (h : (events.map f)[i]? = some (some k)) : ∃ a, events[i]? = some a ∧ f a = some k := by
  rw [List.getElem?_map] at h
  exact Option.map_eq_some_iff.mp h

theorem map_getElem? {f : AgentEvent → Option String} {a : AgentEvent} (ha : events[i]? = some a) :
    (events.map f)[i]? = some (f a) := by
  rw [List.getElem?_map, ha]
  rfl

/-- The pairs that are united generate the components. -/
theorem eqvGen_unionPairs : EqvGen (fun a b => (a, b) ∈ unionPairs events) i j ↔
    Connected events i j := by
  have hwork := indexed_indexFrom (events.map AgentEvent.workId)
  have hcommand := indexed_indexFrom (events.map AgentEvent.commandId)
  constructor
  · intro h
    refine h.mono fun x y hxy => ?_
    rcases List.mem_append.mp hxy with hxy | hxy
    · obtain ⟨k, hx, hy⟩ := hwork.of_mem_pairsOf hxy
      obtain ⟨a, ha, hak⟩ := of_map_getElem? hx
      obtain ⟨b, hb, hbk⟩ := of_map_getElem? hy
      exact .work x y a b k ha hb hak hbk
    rcases List.mem_append.mp hxy with hxy | hxy
    · obtain ⟨k, hx, hy⟩ := hcommand.of_mem_pairsOf hxy
      obtain ⟨a, ha, hak⟩ := of_map_getElem? hx
      obtain ⟨b, hb, hbk⟩ := of_map_getElem? hy
      exact .command x y a b k ha hb hak hbk
    · obtain ⟨k, a, b, hx, rfl, ha, hb, hstep⟩ := mem_stepPairs.mp hxy
      rw [Nat.zero_add] at hx
      subst hx
      exact .step x a b ha hb hstep
  · intro h
    induction h with
    | rel x y hxy =>
      cases hxy with
      | work _ a b w ha hb haw hbw =>
        have hpath := hwork.eqvGen (by rw [map_getElem? ha, haw]) (by rw [map_getElem? hb, hbw])
        exact hpath.mono fun _ _ hp => List.mem_append_left _ hp
      | command _ a b c ha hb hac hbc =>
        have hpath := hcommand.eqvGen (by rw [map_getElem? ha, hac]) (by rw [map_getElem? hb, hbc])
        exact hpath.mono fun _ _ hp => List.mem_append_right _ (List.mem_append_left _ hp)
      | step a b ha hb hstep =>
        refine .rel _ _ (List.mem_append_right _ (List.mem_append_right _ ?_))
        exact mem_stepPairs.mpr ⟨x, a, b, (Nat.zero_add x).symm, rfl, ha, hb, hstep⟩
    | refl x => exact .refl x
    | symm _ _ _ ih => exact ih.symm
    | trans _ _ _ _ _ ih₁ ih₂ => exact ih₁.trans _ _ _ ih₂

end Pairs

section Result

variable {events : List AgentEvent}

theorem groupId_injective {r s : ℕ} (h : groupId r = groupId s) : r = s :=
  Nat.repr_injective ((String.append_right_inj _).mp h)

/-- Where all that is set for a key is one value, the key has it just if something is set for it. -/
theorem foldl_update {sets : List (String × String)} {k v : String}
    (h : ∀ p ∈ sets, p.1 = k → p.2 = v) (m : String → Option String) :
    (sets.foldl (fun (m : String → Option String) p => Function.update m p.1 (some p.2)) m) k =
      if ∃ p ∈ sets, p.1 = k then some v else m k := by
  induction sets generalizing m with
  | nil => simp
  | cons p sets ih =>
    rw [List.foldl_cons, ih fun q hq => h q (List.mem_cons_of_mem _ hq)]
    by_cases hrest : ∃ q ∈ sets, q.1 = k
    · obtain ⟨q, hq, hqk⟩ := hrest
      rw [if_pos ⟨q, hq, hqk⟩, if_pos ⟨q, List.mem_cons_of_mem _ hq, hqk⟩]
    · rw [if_neg hrest]
      by_cases hp : p.1 = k
      · rw [if_pos ⟨p, List.mem_cons_self, hp⟩, hp, Function.update_self,
          h p List.mem_cons_self hp]
      · rw [Function.update_of_ne (Ne.symm hp), if_neg]
        rintro ⟨q, hq, hqk⟩
        rcases List.mem_cons.mp hq with rfl | hq
        · exact hp hqk
        · exact hrest ⟨q, hq, hqk⟩

theorem mem_groupSets {components : Index ℕ} {p : String × String} :
    p ∈ groupSets events components ↔ ∃ e ∈ components, 2 ≤ e.2.length ∧
      ∃ i ∈ e.2, ∃ a, events[i]? = some a ∧ (a.id, groupId e.1) = p := by
  unfold groupSets
  rw [List.mem_flatMap]
  refine exists_congr fun e => and_congr_right fun _ => ?_
  split
  · rename_i hlt
    exact iff_of_false List.not_mem_nil fun h => absurd h.1 (by omega)
  · rename_i hge
    rw [List.mem_filterMap, and_iff_right (by omega : 2 ≤ e.2.length)]
    simp only [Option.map_eq_some_iff]

theorem two_le_length_iff {l : List ℕ} (hl : l.Nodup) {i : ℕ} (hi : i ∈ l) :
    2 ≤ l.length ↔ ∃ j ∈ l, j ≠ i := by
  obtain ⟨front, back, rfl⟩ := List.append_of_mem hi
  constructor
  · intro hlength
    rw [List.length_append, List.length_cons] at hlength
    have hmiddle := List.nodup_middle.mp hl
    obtain ⟨hnew, -⟩ := List.nodup_cons.mp hmiddle
    obtain ⟨j, hj⟩ : ∃ j, j ∈ front ++ back := by
      apply List.exists_mem_of_length_pos
      rw [List.length_append]
      omega
    refine ⟨j, ?_, fun heq => hnew (heq ▸ hj)⟩
    rcases List.mem_append.mp hj with hj | hj
    · exact List.mem_append_left _ hj
    · exact List.mem_append_right _ (List.mem_cons_of_mem _ hj)
  · rintro ⟨j, hj, hne⟩
    rw [List.length_append, List.length_cons]
    rcases List.mem_append.mp hj with hj | hj
    · have hpos := List.length_pos_of_mem hj
      omega
    · rcases List.mem_cons.mp hj with rfl | hj
      · exact absurd rfl hne
      · have hpos := List.length_pos_of_mem hj
        omega

/-- The group of an event is that of its root, where another event has the same root. -/
theorem setAll_eq {roots : List ℕ} (hids : (events.map AgentEvent.id).Nodup)
    {i r : ℕ} {a : AgentEvent} (ha : events[i]? = some a) (hr : roots[i]? = some r) :
    ((∃ j, j ≠ i ∧ roots[j]? = some r) →
      setAll (groupSets events (indexFrom [] 0 (roots.map some))) a.id = some (groupId r)) ∧
    ((¬∃ j, j ≠ i ∧ roots[j]? = some r) →
      setAll (groupSets events (indexFrom [] 0 (roots.map some))) a.id = none) := by
  have hindexed := indexed_indexFrom (roots.map some)
  generalize indexFrom [] 0 (roots.map some) = components at hindexed ⊢
  have hplaces : ∀ e ∈ components, ∀ j, j ∈ e.2 ↔ roots[j]? = some e.1 := by
    intro e he j
    rw [hindexed.places e he j, List.getElem?_map]
    simp
  -- one place has the id, so one component sets it
  have hplace : ∀ (j : ℕ) (b : AgentEvent), events[j]? = some b → b.id = a.id → j = i := by
    intro j b hb hid
    have hi : (events.map AgentEvent.id)[i]? = some a.id := by rw [List.getElem?_map, ha]; rfl
    have hj : (events.map AgentEvent.id)[j]? = some a.id := by
      rw [List.getElem?_map, hb]
      exact congrArg some hid
    have hlt := (List.getElem?_eq_some_iff.mp hj).1
    exact (List.getElem?_inj hlt hids).mp (hj.trans hi.symm)
  have hvalue : ∀ p ∈ groupSets events components, p.1 = a.id → p.2 = groupId r := by
    intro p hp hid
    obtain ⟨e, he, -, j, hj, b, hb, rfl⟩ := mem_groupSets.mp hp
    obtain rfl := hplace j b hb hid
    have hroot := (hplaces e he j).mp hj
    rw [hr] at hroot
    rw [Option.some.inj hroot]
  have hset : (∃ p ∈ groupSets events components, p.1 = a.id) ↔ ∃ j, j ≠ i ∧ roots[j]? = some r := by
    constructor
    · rintro ⟨p, hp, hid⟩
      obtain ⟨e, he, htwo, j, hj, b, hb, rfl⟩ := mem_groupSets.mp hp
      obtain rfl := hplace j b hb hid
      obtain ⟨k, hk, hne⟩ := (two_le_length_iff (hindexed.once e he) hj).mp htwo
      have hroot := (hplaces e he j).mp hj
      rw [hr] at hroot
      rw [Option.some.inj hroot]
      exact ⟨k, hne, (hplaces e he k).mp hk⟩
    · rintro ⟨k, hne, hk⟩
      obtain ⟨e, he, rfl⟩ := hindexed.present i r (by rw [List.getElem?_map, hr]; rfl)
      have hi := (hplaces e he i).mpr hr
      refine ⟨(a.id, groupId e.1), mem_groupSets.mpr ⟨e, he, ?_, i, hi, a, ha, rfl⟩, rfl⟩
      exact (two_le_length_iff (hindexed.once e he) hi).mpr ⟨k, (hplaces e he k).mpr hk, hne⟩
  rw [setAll, foldl_update hvalue]
  exact ⟨fun h => if_pos (hset.mpr h), fun h => if_neg fun hp => h (hset.mp hp)⟩

/-- What is asked of the groups: two events have one just if they are connected, and an event has none
just if it is connected to no other. -/
structure Components (events : List AgentEvent) (groups : String → Option String) : Prop where
  same : ∀ (i j : ℕ) (a b : AgentEvent), events[i]? = some a → events[j]? = some b → i ≠ j →
    ((∃ g, groups a.id = some g ∧ groups b.id = some g) ↔ Connected events i j)
  alone : ∀ (i : ℕ) (a : AgentEvent), events[i]? = some a →
    (groups a.id = none ↔ ∀ (j : ℕ) (b : AgentEvent), events[j]? = some b →
      Connected events i j → j = i)

/-- The groups from roots that two places share just if they are connected. -/
theorem components_of_roots {roots : List ℕ} (hids : (events.map AgentEvent.id).Nodup)
    (hlength : roots.length = events.length)
    (hroots : ∀ i j r s, roots[i]? = some r → roots[j]? = some s → (r = s ↔ Connected events i j)) :
    Components events (setAll (groupSets events (indexFrom [] 0 (roots.map some)))) := by
  have hroot : ∀ (i : ℕ) (a : AgentEvent), events[i]? = some a → ∃ r, roots[i]? = some r := by
    intro i a ha
    have hlt := (List.getElem?_eq_some_iff.mp ha).1
    exact ⟨_, List.getElem?_eq_getElem (by omega)⟩
  have hevent : ∀ (j r : ℕ), roots[j]? = some r → ∃ b, events[j]? = some b := by
    intro j r hr
    have hlt := (List.getElem?_eq_some_iff.mp hr).1
    exact ⟨_, List.getElem?_eq_getElem (by omega)⟩
  constructor
  · intro i j a b ha hb hne
    obtain ⟨r, hr⟩ := hroot i a ha
    obtain ⟨s, hs⟩ := hroot j b hb
    obtain ⟨hi, hi'⟩ := setAll_eq hids ha hr
    obtain ⟨hj, hj'⟩ := setAll_eq hids hb hs
    rw [← hroots i j r s hr hs]
    constructor
    · rintro ⟨g, hgi, hgj⟩
      by_cases hri : ∃ k, k ≠ i ∧ roots[k]? = some r
      · by_cases hrj : ∃ k, k ≠ j ∧ roots[k]? = some s
        · rw [hi hri] at hgi
          rw [hj hrj] at hgj
          exact groupId_injective (Option.some.inj (hgi.trans hgj.symm))
        · rw [hj' hrj] at hgj
          cases hgj
      · rw [hi' hri] at hgi
        cases hgi
    · rintro rfl
      exact ⟨groupId r, hi ⟨j, hne.symm, hs⟩, hj ⟨i, hne, hr⟩⟩
  · intro i a ha
    obtain ⟨r, hr⟩ := hroot i a ha
    obtain ⟨hi, hi'⟩ := setAll_eq hids ha hr
    constructor
    · intro hnone j b hb hconn
      by_contra hne
      obtain ⟨s, hs⟩ := hroot j b hb
      obtain rfl := (hroots i j r s hr hs).mpr hconn
      rw [hi ⟨j, hne, hs⟩] at hnone
      cases hnone
    · intro halone
      refine hi' ?_
      rintro ⟨j, hne, hj⟩
      obtain ⟨b, hb⟩ := hevent j r hj
      exact hne (halone j b hb ((hroots i j r r hr hj).mp rfl))

theorem components_short (h : events.length < 2) : Components events fun _ => none := by
  have honly : ∀ (i : ℕ) (a : AgentEvent), events[i]? = some a → i = 0 := by
    intro i a ha
    have hlt := (List.getElem?_eq_some_iff.mp ha).1
    omega
  constructor
  · intro i j a b ha hb hne
    exact absurd ((honly i a ha).trans (honly j b hb).symm) hne
  · intro i a ha
    exact iff_of_true rfl fun j b hb _ => (honly j b hb).trans (honly i a ha).symm

theorem exists_components (events : List AgentEvent)
    (hids : (events.map AgentEvent.id).Nodup) : ∃ enough, ∀ fuel, enough ≤ fuel →
      ∃ groups, computeGroups fuel events = some groups ∧ Components events groups := by
  refine ⟨(unionPairs events).length + 1, fun fuel hfuel => ?_⟩
  unfold computeGroups
  by_cases hshort : events.length < 2
  · exact ⟨fun _ => none, if_pos hshort, components_short hshort⟩
  rw [if_neg hshort]
  obtain ⟨uf, huf, hvalid, hjoined⟩ := valid_empty.unions (n := fuel) (unionPairs events)
    (R := fun _ _ => False) (by omega) fun u v => joined_empty
  obtain ⟨roots, g, hfinds, -, hsame, hall⟩ := hvalid.finds (n := fuel) (List.range events.length)
    (by omega)
  have hlength : roots.length = events.length := by
    rw [← hall.length_eq, List.length_range]
  refine ⟨setAll (groupSets events (indexFrom [] 0 (roots.map some))), ?_,
    components_of_roots hids hlength ?_⟩
  · rw [huf, Option.bind_eq_bind, Option.bind_some, hfinds]
    rfl
  · intro i j r s hr hs
    have hlead : ∀ k t, roots[k]? = some t → Leads g k t := by
      intro k t ht
      have hk := (List.getElem?_eq_some_iff.mp ht).1
      have hlead := (List.forall₂_iff_get.mp hall).2 k (by rw [List.length_range]; omega) hk
      rw [List.get_eq_getElem, List.get_eq_getElem, List.getElem_range] at hlead
      rwa [(List.getElem?_eq_some_iff.mp ht).2] at hlead
    rw [← eqvGen_unionPairs]
    have hclosure : Joined g i j ↔ EqvGen (fun a b => (a, b) ∈ unionPairs events) i j := by
      rw [hsame, hjoined]
      simp only [false_or]
    rw [← hclosure, ← leads_iff_joined (hlead j s hs)]
    constructor
    · rintro rfl
      exact hlead i r hr
    · exact (hlead i r hr).unique

theorem searches_end (pairs : List (ℕ × ℕ)) (xs : List ℕ) : ∃ enough, ∀ fuel, enough ≤ fuel →
    ∃ uf roots, Forest.unions fuel {} pairs = some uf ∧ Forest.finds fuel uf xs = some roots := by
  refine ⟨pairs.length + 1, fun fuel hfuel => ?_⟩
  obtain ⟨uf, huf, hvalid, -⟩ := valid_empty.unions (n := fuel) pairs (R := fun _ _ => False)
    (by omega) fun u v => joined_empty
  obtain ⟨roots, -, hfinds, -⟩ := hvalid.finds (n := fuel) xs (by omega)
  exact ⟨uf, roots, huf, hfinds⟩

/-- With enough steps for the searches, which end after any unions, `computeGroups` returns, and its
groups are the components. -/
theorem computeGroups_components (events : List AgentEvent)
    (hids : (events.map AgentEvent.id).Nodup) :
    (∃ enough, ∀ fuel, enough ≤ fuel →
      ∃ groups, computeGroups fuel events = some groups ∧ Components events groups) ∧
    ∀ (pairs : List (ℕ × ℕ)) (xs : List ℕ), ∃ enough, ∀ fuel, enough ≤ fuel → ∃ uf roots,
      Forest.unions fuel {} pairs = some uf ∧ Forest.finds fuel uf xs = some roots :=
  ⟨exists_components events hids, searches_end⟩

/-- A command and its end. -/
theorem computeGroups_components_two :
    (∃ enough, ∀ fuel, enough ≤ fuel → ∃ groups,
      computeGroups fuel [⟨"a", "command_start", "shell", some 0, none, some "c"⟩,
        ⟨"b", "command_complete", "shell", some 1, none, some "c"⟩] = some groups ∧
      Components [⟨"a", "command_start", "shell", some 0, none, some "c"⟩,
        ⟨"b", "command_complete", "shell", some 1, none, some "c"⟩] groups) ∧
    ∀ (pairs : List (ℕ × ℕ)) (xs : List ℕ), ∃ enough, ∀ fuel, enough ≤ fuel → ∃ uf roots,
      Forest.unions fuel {} pairs = some uf ∧ Forest.finds fuel uf xs = some roots :=
  computeGroups_components _ (by decide)

end Result

end Hill90.View.Groups
