import Hill90.Knowledge.Sync

/-! # The sweep for orphans

The reconciler lists the files of an agent, asks for the agent's rows and records the files that had
none.  The record is the quarantine, as no file is moved; an entry that is created after the query is
not seen.
-/

namespace Hill90.Knowledge.Sync

section Sweep

variable {lib : Loader} {lower : String → String} {s t u : State} {e : Event} {k : Key}

/-- The key is on its way to the record: its file was listed, and no row of it was found. -/
def Stage.suspects : Stage → Key → Bool
  | .known agent disk db, k => k.1 = agent && (disk k.2 && !db k.2)
  | .orphans agent paths, k => k.1 = agent && paths k.2
  | _, _ => false

/-- No row is created at a path between the query that did not find it and its record. -/
def State.Spares (s : State) : Event → Prop
  | .store i _ => ∀ k content title, s.calls i = some (.asked false k content title) →
    s.stage.suspects k = false
  | _ => True

def State.Rowless (s : State) : Prop := ∀ k, s.stage.suspects k = true → s.entries k = none

theorem update_none {β : Type} {f : Key → Option β} {j : Key} {x : Option β}
    (hx : f k = none → x = none) (hj : f j = none) : Function.update f k x j = none := by
  by_cases hjk : j = k
  · subst hjk
    simpa using hx hj
  · simpa [hjk] using hj

theorem State.Rowless.of_stage (h : s.Rowless) (hstage : t.stage = s.stage)
    (hentries : ∀ k, s.stage.suspects k = true → s.entries k = none → t.entries k = none) : t.Rowless := by
  intro k hk
  rw [hstage] at hk
  exact hentries k hk (h k hk)

theorem State.Rowless.store (h : s.Rowless) {i : ℕ} {heard : Bool} (hok : s.Spares (.store i heard))
    (hstep : (machine lib lower).step s (.store i heard) = some t) : t.Rowless := by
  simp only [machine, State.step] at hstep
  split at hstep
  · rename_i update j content title hcall
    split at hstep
    · rename_i entries hstore
      cases hstep
      apply h.of_stage
      · rfl
      intro k hk hnone
      cases update with
      | true =>
        obtain ⟨e, he, -, rfl⟩ := updateEntry_eq_some hstore
        exact update_none (fun hj => by rw [he] at hj; cases hj) hnone
      | false =>
        obtain ⟨-, rfl⟩ := insertEntry_eq_some hstore
        have hne : k ≠ j := by
          rintro rfl
          rw [hok k content title hcall] at hk
          cases hk
        exact (Function.update_of_ne hne _ _).trans hnone
    · cases hstep
      exact h
  · cases hstep

/-- A statement of the pending rows: the sweep has not begun. -/
theorem rowless_settles {outcome : Outcome} (hstep : s.settles outcome = some t) : t.Rowless := by
  unfold State.settles at hstep
  split at hstep
  case h_6 => cases hstep
  all_goals
    cases hstep
    cases outcome.heard <;> rintro k ⟨⟩

theorem rowless_step (h : s.Rowless) (hok : s.Spares e)
    (hstep : (machine lib lower).step s e = some t) : t.Rowless := by
  cases e with
  | arrive i update w =>
    simp only [machine, State.step] at hstep
    split at hstep
    · cases hstep
    · split at hstep <;> cases hstep <;> exact h
  | store i heard => exact h.store hok hstep
  | mkdir i =>
    simp only [machine, State.step] at hstep
    split at hstep <;> cases hstep <;> exact h
  | file i written =>
    simp only [machine, State.step] at hstep
    split at hstep
    · cases hstep
      split <;> exact h
    · cases hstep
  | mark i outcome =>
    simp only [machine, State.step] at hstep
    split at hstep
    · rename_i j hcall
      cases hstep
      apply h.of_stage
      · exact stage_settled j .synced outcome.effect
      · intro k _ hnone
        simp only [State.setCall, State.settled]
        split
        · exact update_none (fun hj => by rw [hj]; rfl) hnone
        · exact hnone
    · cases hstep
  | drop i =>
    obtain ⟨call, -, rfl⟩ := Option.map_eq_some_iff.mp hstep
    exact h
  | archive agent path =>
    simp only [machine, State.step] at hstep
    split at hstep
    · obtain ⟨entries, harchive, rfl⟩ := Option.map_eq_some_iff.mp hstep
      obtain ⟨e, he, -, rfl⟩ := archiveEntry_eq_some harchive
      exact h.of_stage rfl fun k _ hnone =>
        update_none (fun hj => by rw [he] at hj; cases hj) hnone
    · cases hstep
      exact h
  | fetch keys =>
    simp only [machine, State.step] at hstep
    split at hstep
    · split at hstep
      · obtain ⟨rows, -, rfl⟩ := Option.map_eq_some_iff.mp hstep
        rintro k ⟨⟩
      · cases hstep
    · cases hstep
  | examine written =>
    simp only [machine, State.step] at hstep
    split at hstep
    · cases hstep
      unfold State.examined
      repeat' split
      all_goals rintro k ⟨⟩
    · cases hstep
      rintro k ⟨⟩
    · cases hstep
  | settle outcome => exact rowless_settles hstep
  | list agent =>
    simp only [machine, State.step] at hstep
    split at hstep
    · cases hstep
      rintro k ⟨⟩
    · cases hstep
  | query =>
    simp only [machine, State.step] at hstep
    split at hstep
    · cases hstep
      rintro ⟨agent', path⟩ hk
      simp only [Stage.suspects, Bool.and_eq_true, decide_eq_true_eq, Bool.not_eq_true',
        Option.isSome_eq_false_iff, Option.isNone_iff_eq_none] at hk
      obtain ⟨rfl, -, hdb⟩ := hk
      exact hdb
    · cases hstep
  | compare =>
    simp only [machine, State.step] at hstep
    split at hstep
    · rename_i agent disk db hstage
      cases hstep
      intro k hk
      simp only [Stage.suspects, Bool.and_eq_true] at hk
      apply h
      rw [hstage]
      simp only [Stage.suspects, Bool.and_eq_true]
      exact ⟨hk.1, hk.2.1⟩
    · cases hstep
  | record path outcome =>
    simp only [machine, State.step] at hstep
    split at hstep
    · rename_i agent paths hstage
      split at hstep
      · cases hstep
        cases outcome.heard with
        | true =>
          intro k hk
          obtain ⟨hagent, hpaths⟩ := Bool.and_eq_true_iff.mp hk
          apply h
          rw [hstage]
          exact Bool.and_eq_true_iff.mpr ⟨hagent, (Bool.and_eq_true_iff.mp hpaths).1⟩
        | false => rintro k ⟨⟩
      · cases hstep
    · cases hstep
  | rest =>
    simp only [machine, State.step] at hstep
    split at hstep <;> cases hstep <;> rintro k ⟨⟩

/-- The step `u` of the sweep from `t` moves no file, and what it adds to the quarantine has no row,
active or archived. -/
def SparesLive (t u : State) : Prop :=
  u.files = t.files ∧ ∀ q ∈ u.quarantine, q ∈ t.quarantine ∨ t.entries q.key = none

theorem sparesLive_record {path : String} {outcome : Outcome} (h : t.Rowless)
    (hstep : (machine lib lower).step t (.record path outcome) = some u) : SparesLive t u := by
  simp only [machine, State.step] at hstep
  split at hstep
  · rename_i agent paths hstage
    split at hstep
    · rename_i hpath
      cases hstep
      refine ⟨rfl, ?_⟩
      intro q hq
      dsimp only at hq
      split at hq
      · obtain hq | hq := List.mem_append.mp hq
        · exact .inl hq
        · obtain rfl := List.mem_singleton.mp hq
          right
          apply h
          rw [hstage]
          simpa [Stage.suspects] using hpath
      · exact .inl hq
    · cases hstep
  · cases hstep

/-- In the runs that create no row between the query and the record of its path, every record is of
a path without a row. -/
theorem sweep_spares_live {es : List Event} {path : String} {outcome : Outcome}
    (hinitial : (machine lib lower).initial s)
    (hrun : (machine lib lower).RunIf State.Spares s es t)
    (hstep : (machine lib lower).step t (.record path outcome) = some u) : SparesLive t u := by
  have hrowless : s.Rowless := by
    obtain ⟨-, hstage, -⟩ := hinitial
    intro k hk
    rw [hstage] at hk
    cases hk
  exact sparesLive_record
    (hrun.invariant hrowless fun _ _ _ hs hok hstep => rowless_step hs hok hstep) hstep

/-- A file without a row. -/
def leftBehind : State where
  entries _ := none
  files := Function.update (fun _ => none) ("agent", "old.md") (some "old")

/-- An entry is created at the path of the file once the sweep has asked for the rows. -/
def createdLate : List Event :=
  [.fetch [], .examine true, .arrive 0 false (noteAt "old.md" "new"), .list "agent", .query,
    .compare, .store 0 true, .file 0 true, .mark 0 .done]

theorem sweep_records_live :
    (machine loader id).Reachable ((machine loader id).after leftBehind createdLate) ∧
      ∃ u, (machine loader id).step ((machine loader id).after leftBehind createdLate)
          (.record "old.md" .done) = some u ∧
        ∃ q ∈ u.quarantine, q ∉ ((machine loader id).after leftBehind createdLate).quarantine ∧
          ∃ e, u.entries q.key = some e ∧ e.status = .active ∧ e.syncStatus = .synced ∧
            u.files q.key = some e.body := by
  refine ⟨⟨leftBehind, createdLate, ⟨rfl, rfl, rfl⟩, Machine.run_after (by decide)⟩,
    (machine loader id).after leftBehind (createdLate ++ [.record "old.md" .done]),
    Machine.step_after (by decide), 
    ⟨("agent", "old.md"), "orphan file: exists on disk but not in database", 0⟩,
    by decide, by decide, ⟨(noteAt "old.md" "new").content, "A", .active, .synced, 0⟩, by decide⟩

/-- An entry is created while the files of its agent are swept. -/
def createdMeanwhile : List Event :=
  [.fetch [], .examine true, .arrive 0 false (note "new"), .list "agent", .query, .store 0 true,
    .compare]

def State.spares (s : State) : Event → Bool
  | .store i _ =>
    match s.calls i with
    | some (.asked false k _ _) => !s.stage.suspects k
    | _ => true
  | _ => true

theorem spares_spec (h : s.spares e = true) : s.Spares e := by
  cases e with
  | store i heard =>
    intro k content title hcall
    simpa [State.spares, hcall] using h
  | _ => trivial

theorem sweep_spares_live_createdMeanwhile :
    SparesLive ((machine loader id).after leftBehind createdMeanwhile)
      ((machine loader id).after leftBehind (createdMeanwhile ++ [.record "old.md" .done])) :=
  sweep_spares_live ⟨rfl, rfl, rfl⟩
    (Machine.runIf_of_accepts (I := fun _ => True) (fun _ _ _ h => spares_spec h)
      (fun _ _ _ _ _ _ => trivial) trivial (by decide))
    (Machine.step_after (by decide))

end Sweep

end Hill90.Knowledge.Sync
