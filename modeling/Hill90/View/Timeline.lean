import Mathlib.Data.List.Lex
import Mathlib.Data.Prod.Lex
import Mathlib.Data.Fin.Basic
import Hill90.Foundation.Newest

/-! # The events an agent's page shows

`EventTimeline.tsx`: each event of the stream is put at its place by binary search, and the oldest
are dropped beyond `MAX_EVENTS`.
-/

namespace Hill90.View.Timeline

open Newest

/-- A string as its UTF-16 code units, by which `<=` compares. -/
abbrev JsString := List (Fin 65536)

structure AgentEvent where
  id : JsString
  timestamp : JsString
  deriving DecidableEq, Repr

def maxEvents : ℕ := 500

def AgentEvent.sortKey (e : AgentEvent) : JsString := e.timestamp ++ 0 :: e.id

/-- The binary search: how many of the events come before the key. -/
def lowerBound (events : List AgentEvent) (key : JsString) (lo hi : ℕ) : ℕ :=
  if lo < hi then
    let mid := (lo + hi) >>> 1
    if events[mid]?.any fun e => e.sortKey ≤ key then lowerBound events key (mid + 1) hi
    else lowerBound events key lo mid
  else lo
termination_by hi - lo
decreasing_by all_goals simp only [Nat.shiftRight_eq_div_pow]; omega

def insertSorted (events : List AgentEvent) (event : AgentEvent) : List AgentEvent :=
  let lo := lowerBound events event.sortKey 0 events.length
  events.take lo ++ event :: events.drop lo

def onMessage (events : List AgentEvent) (event : AgentEvent) : List AgentEvent :=
  let next := insertSorted events event
  if maxEvents < next.length then next.drop (next.length - maxEvents) else next

/-- The timestamp, then the id. -/
def AgentEvent.key (e : AgentEvent) : JsString ×ₗ JsString := toLex (e.timestamp, e.id)

/-- Neither the timestamp nor the id holds a NUL. -/
def AgentEvent.NulFree (e : AgentEvent) : Prop := 0 ∉ e.timestamp ∧ 0 ∉ e.id

section Key

/-- A separator below every other letter makes the order of joined strings that of the pairs. -/
theorem append_zero_lt_iff {s t i j : JsString} (hs : 0 ∉ s) (ht : 0 ∉ t) :
    s ++ 0 :: i < t ++ 0 :: j ↔ s < t ∨ s = t ∧ i < j := by
  induction s generalizing t with
  | nil =>
    cases t with
    | nil => simp
    | cons d t =>
      have hd : 0 < d := Fin.pos_of_ne_zero fun h => ht (h ▸ List.mem_cons_self)
      have hlt : 0 :: i < d :: (t ++ 0 :: j) := List.cons_lt_cons_iff.mpr (.inl hd)
      simpa using hlt
  | cons c s ih =>
    have hc : 0 < c := Fin.pos_of_ne_zero fun h => hs (h ▸ List.mem_cons_self)
    cases t with
    | nil =>
      have hlt : 0 :: j < c :: (s ++ 0 :: i) := List.cons_lt_cons_iff.mpr (.inl hc)
      simpa using hlt.le
    | cons d t =>
      have hs' : 0 ∉ s := fun h => hs (List.mem_cons_of_mem _ h)
      have ht' : 0 ∉ t := fun h => ht (List.mem_cons_of_mem _ h)
      rw [List.cons_append, List.cons_append, List.cons_lt_cons_iff, ih hs' ht',
        List.cons_lt_cons_iff, List.cons.injEq]
      tauto

variable {a b : AgentEvent}

theorem sortKey_lt_iff (ha : a.NulFree) (hb : b.NulFree) :
    a.sortKey < b.sortKey ↔ a.key < b.key := by
  unfold AgentEvent.sortKey AgentEvent.key
  rw [append_zero_lt_iff ha.1 hb.1, Prod.Lex.toLex_lt_toLex]

theorem sortKey_le_iff (ha : a.NulFree) (hb : b.NulFree) :
    a.sortKey ≤ b.sortKey ↔ a.key ≤ b.key := by
  rw [← not_lt, ← not_lt, sortKey_lt_iff hb ha]

end Key

section Search

variable {events : List AgentEvent} {key : JsString}

/-- The events before `lo` do not come after the key, and those from `hi` on do. -/
def Brackets (events : List AgentEvent) (key : JsString) (lo hi : ℕ) : Prop :=
  (∀ i e, events[i]? = some e → i < lo → e.sortKey ≤ key) ∧
    ∀ i e, events[i]? = some e → hi ≤ i → key < e.sortKey

theorem sortKey_le_of_le (hsorted : events.Pairwise fun a b => a.sortKey < b.sortKey) {i j : ℕ}
    {a b : AgentEvent} (ha : events[i]? = some a) (hb : events[j]? = some b) (hij : i ≤ j) :
    a.sortKey ≤ b.sortKey := by
  obtain ⟨hi, rfl⟩ := List.getElem?_eq_some_iff.mp ha
  obtain ⟨hj, rfl⟩ := List.getElem?_eq_some_iff.mp hb
  rcases hij.eq_or_lt with rfl | hlt
  · exact le_rfl
  · exact (List.pairwise_iff_getElem.mp hsorted i j hi hj hlt).le

theorem lowerBound_brackets (hsorted : events.Pairwise fun a b => a.sortKey < b.sortKey)
    {lo hi : ℕ} (hle : lo ≤ hi) (hhi : hi ≤ events.length) (h : Brackets events key lo hi) :
    Brackets events key (lowerBound events key lo hi) (lowerBound events key lo hi) := by
  fun_induction lowerBound events key lo hi with
  | case1 lo hi hlt mid hmid ih =>
    have hmid_eq : mid = (lo + hi) / 2 := Nat.shiftRight_eq_div_pow _ _
    refine ih (by omega) hhi ⟨?_, h.2⟩
    intro i e he hi'
    have hm : events[mid]? = some (events.get ⟨mid, by omega⟩) :=
      List.getElem?_eq_getElem (by omega)
    rw [hm] at hmid
    exact (sortKey_le_of_le hsorted he hm (by omega)).trans (by simpa using hmid)
  | case2 lo hi hlt mid hmid ih =>
    have hmid_eq : mid = (lo + hi) / 2 := Nat.shiftRight_eq_div_pow _ _
    refine ih (by omega) (by omega) ⟨h.1, ?_⟩
    intro i e he hi'
    have hm : events[mid]? = some (events.get ⟨mid, by omega⟩) :=
      List.getElem?_eq_getElem (by omega)
    rw [hm] at hmid
    exact lt_of_lt_of_le (by simpa using hmid) (sortKey_le_of_le hsorted hm he hi')
  | case3 lo hi hlt =>
    obtain rfl : lo = hi := by omega
    exact h

theorem insertSorted_perm (events : List AgentEvent) (event : AgentEvent) :
    (insertSorted events event).Perm (event :: events) := by
  have h := @List.perm_middle _ event
    (events.take (lowerBound events event.sortKey 0 events.length))
    (events.drop (lowerBound events event.sortKey 0 events.length))
  rwa [List.take_append_drop] at h

theorem insertSorted_sorted (hsorted : events.Pairwise fun a b => a.sortKey < b.sortKey)
    {event : AgentEvent} (hnew : ∀ e ∈ events, e.sortKey ≠ event.sortKey) :
    (insertSorted events event).Pairwise fun a b => a.sortKey < b.sortKey := by
  obtain ⟨hlow, hhigh⟩ := @lowerBound_brackets events event.sortKey hsorted _ _
    (Nat.zero_le events.length) le_rfl ⟨fun i e _ hi => absurd hi (Nat.not_lt_zero i), by
      intro i e he hi
      obtain ⟨hlt, -⟩ := List.getElem?_eq_some_iff.mp he
      omega⟩
  unfold insertSorted
  generalize lowerBound events event.sortKey 0 events.length = lo at hlow hhigh
  have hbelow : ∀ a ∈ events.take lo, a.sortKey < event.sortKey := by
    intro a ha
    obtain ⟨i, hi, rfl⟩ := List.mem_take_iff_getElem.mp ha
    have hle := hlow i _ (List.getElem?_eq_getElem (by omega)) (by omega)
    exact lt_of_le_of_ne hle (hnew _ (List.getElem_mem _))
  have habove : ∀ b ∈ events.drop lo, event.sortKey < b.sortKey := by
    intro b hb
    obtain ⟨i, hi, rfl⟩ := List.mem_drop_iff_getElem.mp hb
    exact hhigh (lo + i) _ (List.getElem?_eq_getElem (by omega)) (by omega)
  rw [List.pairwise_append, List.pairwise_cons]
  refine ⟨hsorted.sublist (List.take_sublist _ _),
    ⟨habove, hsorted.sublist (List.drop_sublist _ _)⟩, ?_⟩
  intro a ha b hb
  rcases List.mem_cons.mp hb with rfl | hb
  · exact hbelow a ha
  · exact (hbelow a ha).trans (habove b hb)

end Search

/-- Insertion puts an event at its place by timestamp and id, as long as no NUL is in either. -/
theorem insertSorted_places : Places AgentEvent.key AgentEvent.NulFree insertSorted := by
  intro events event hfree hevent hsorted hnew
  refine ⟨insertSorted_perm events event, ?_⟩
  have hsorted' : events.Pairwise fun a b => a.sortKey < b.sortKey :=
    hsorted.imp_of_mem fun ha hb h => (sortKey_lt_iff (hfree _ ha) (hfree _ hb)).mpr h
  have hnew' : ∀ e ∈ events, e.sortKey ≠ event.sortKey := by
    intro e he heq
    apply hnew e he
    exact le_antisymm ((sortKey_le_iff (hfree e he) hevent).mp heq.le)
      ((sortKey_le_iff hevent (hfree e he)).mp heq.ge)
  have hall : ∀ e ∈ insertSorted events event, e.NulFree := by
    intro e he
    rcases List.mem_cons.mp ((insertSorted_perm events event).mem_iff.mp he) with rfl | he
    · exact hevent
    · exact hfree e he
  exact (insertSorted_sorted hsorted' hnew').imp_of_mem fun ha hb h =>
    (sortKey_lt_iff (hall _ ha) (hall _ hb)).mp h

theorem onMessage_eq_keep (events : List AgentEvent) (event : AgentEvent) :
    onMessage events event = keep maxEvents (insertSorted events event) := by
  unfold onMessage keep
  dsimp only
  split
  · rfl
  · rename_i h
    rw [Nat.sub_eq_zero_of_le (not_lt.mp h), List.drop_zero]

/-- In whatever order the events arrive, the page ends with the `MAX_EVENTS` greatest of them, in
ascending order. -/
theorem foldl_onMessage {events arrivals : List AgentEvent} (hperm : arrivals.Perm events)
    (hdistinct : Keyset.Distinct AgentEvent.key events) (hfree : ∀ e ∈ events, e.NulFree) :
    arrivals.foldl onMessage [] = keep maxEvents (Keyset.ordered AgentEvent.key events) := by
  have hfun : onMessage = fun l x => keep maxEvents (insertSorted l x) := by
    funext events event
    exact onMessage_eq_keep events event
  rw [hfun]
  exact foldl_keep insertSorted_places hperm hdistinct hfree

/-- More events than are kept, of one time. -/
def manyEvents : List AgentEvent := (List.range 502).map fun n => ⟨[Fin.ofNat 65536 (n + 1)], [49]⟩

theorem distinct_manyEvents : Keyset.Distinct AgentEvent.key manyEvents := by
  refine List.pairwise_map.mpr (List.pairwise_lt_range.imp_of_mem ?_)
  intro m n hm hn hlt heq
  have hids : [Fin.ofNat 65536 (m + 1)] = [Fin.ofNat 65536 (n + 1)] := congrArg (fun k => (ofLex k).2) heq
  have hval := congrArg Fin.val (List.singleton_inj.mp hids)
  rw [Fin.val_ofNat, Fin.val_ofNat] at hval
  rw [List.mem_range] at hm hn
  omega

theorem nulFree_manyEvents : ∀ e ∈ manyEvents, e.NulFree := by
  intro e he
  obtain ⟨n, hn, rfl⟩ := List.mem_map.mp he
  refine ⟨by simp, fun hmem => ?_⟩
  have hval := congrArg Fin.val (List.mem_singleton.mp hmem)
  rw [Fin.val_ofNat] at hval
  rw [List.mem_range] at hn
  have hzero : ((0 : Fin 65536) : ℕ) = 0 := rfl
  omega

/-- The later events arrive first. -/
theorem foldl_onMessage_many :
    manyEvents.reverse.foldl onMessage [] = keep maxEvents (Keyset.ordered AgentEvent.key manyEvents) :=
  foldl_onMessage (List.reverse_perm _) distinct_manyEvents nulFree_manyEvents

end Hill90.View.Timeline
