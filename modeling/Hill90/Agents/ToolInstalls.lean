import Hill90.Agents.Installer

/-! # What an installation leaves behind

However the statements of `tool-installer.ts` come back, the table tells the truth about the container
of the agent, a reconciliation that returns leaves exactly the rows of the required tools, and nothing
comes into a container but from the hosts that are allowed.
-/

namespace Hill90.Agents.ToolInstalls

open Chat (Uuid)
open Program

section Steps

abbrev Trail := Log Statement Statement.Rows Store

variable {may : Choice → Prop} {fails : Prop} {t₀ t t' : Trail} {st : Statement}
  {answer : Option st.Rows}

theorem run_quiet {s s' : Store} {c : Choice} {rows : st.Rows} (hst : st.writes = false)
    (h : st.run s c = .ok (rows, s')) : s' = s := by
  cases st with
  | upsertInstallStatus => cases hst
  | deleteInstall => cases hst
  | _ =>
    cases h
    rfl

structure Quiet (t₀ t : Trail) : Prop where
  store : t.store = t₀.store
  trace : t₀.trace <+: t.trace

theorem Quiet.refl (t : Trail) : Quiet t t := ⟨rfl, List.prefix_refl _⟩

theorem trace_of_step (h : Log.Step Statement.run may fails t st answer t') :
    t.trace <+: t'.trace := by
  obtain ⟨e, htrace, -, -⟩ := Log.event_of_step h
  rw [htrace]
  exact List.prefix_append _ _

theorem Quiet.step (hq : Quiet t₀ t) (hst : st.writes = false)
    (h : Log.Step Statement.run may fails t st answer t') : Quiet t₀ t' := by
  refine ⟨?_, hq.trace.trans (trace_of_step h)⟩
  rw [← hq.store]
  cases h with
  | answered _ heff => exact run_quiet hst heff
  | refused _ _ => rfl
  | failed _ => rfl
  | lost _ _ heff => exact run_quiet hst heff

theorem upsert_of_step {a i : Uuid} {status : InstallStatus} {message : String} {at' : Bool}
    {answer : Option (Statement.upsertInstallStatus a i status message at').Rows}
    (h : Log.Step Statement.run may fails t
      (Statement.upsertInstallStatus a i status message at') answer t') :
    (answer = none ∧ t'.store = t.store) ∨
      ∃ now, t'.store = t.store.upsert a i status message at' now := by
  have hrun : ∀ (c : Choice) rows store, Statement.run t.store c
      (Statement.upsertInstallStatus a i status message at') = .ok (rows, store) →
      ∃ now, store = t.store.upsert a i status message at' now := by
    intro c rows store heff
    simp only [Statement.run] at heff
    split at heff
    · cases heff
      exact ⟨c.now, rfl⟩
    · cases heff
  cases h with
  | answered _ heff => exact .inr (hrun _ _ _ heff)
  | refused _ _ => exact .inl ⟨rfl, rfl⟩
  | failed _ => exact .inl ⟨rfl, rfl⟩
  | lost _ _ heff => exact .inr (hrun _ _ _ heff)

theorem delete_of_step {a i : Uuid} {answer : Option (Statement.deleteInstall a i).Rows}
    (h : Log.Step Statement.run may fails t (Statement.deleteInstall a i) answer t') :
    (answer = none ∧ t'.store = t.store) ∨ t'.store = t.store.delete a i := by
  cases h with
  | answered _ heff =>
    cases heff
    exact .inr rfl
  | refused _ _ => exact .inl ⟨rfl, rfl⟩
  | failed _ => exact .inl ⟨rfl, rfl⟩
  | lost _ _ heff =>
    cases heff
    exact .inr rfl

theorem answered_of_step {rows : st.Rows}
    (h : Log.Step Statement.run may fails t st (some rows) t') :
    t'.trace = t.trace ++ [.answered st rows] := by
  cases h
  rfl

theorem always_quiet_query (hq : Quiet t₀ t) (hst : st.writes = false) :
    Always (Log.Step Statement.run may fails) (query st : Handler st.Rows)
      (fun rows t' => Quiet t₀ t' ∧ .answered st rows ∈ t'.trace) (fun _ => Quiet t₀) t := by
  refine always_query st (fun rows t' h => ⟨hq.step hst h, ?_⟩) fun _ t' h => hq.step hst h
  rw [answered_of_step h]
  exact List.mem_append_right _ (List.mem_singleton.mpr rfl)

end Steps

section Verified

variable (cfg : Config) (slug : String) (tool : ToolRow)

/-- The last command of an installation has come back from the container with exit code 0. -/
def Confirms : Event Statement Statement.Rows → Prop
  | .answered (.execInContainerWithExit agentSlug cmd _) result =>
    agentSlug = slug ∧ result.exitCode = 0 ∧
      cmd = if tool.installMethod = .binary then binaryCheck tool else builtinCheck tool
  | .answered (.execWithStdin agentSlug cmd _ _) result =>
    agentSlug = slug ∧ result.exitCode = 0 ∧ tool.installMethod = .binary ∧
      ∃ script, binaryInstallScript cfg tool = .ok script ∧ cmd = ["bash", "-lc", script]
  | _ => False

def InContainer (t : Trail) : Prop := ∃ e ∈ t.trace, Confirms cfg slug tool e

variable {cfg slug tool} {may : Choice → Prop} {fails : Prop} {t₀ t t' : Trail}

theorem InContainer.mono (h : InContainer cfg slug tool t) (htrace : t.trace <+: t'.trace) :
    InContainer cfg slug tool t' := by
  obtain ⟨e, he, hconfirms⟩ := h
  exact ⟨e, htrace.subset he, hconfirms⟩

/-- What an installation comes to: nothing is written, and the container has the tool if it ends
without an error. -/
abbrev Installs (may : Choice → Prop) (fails : Prop) (cfg : Config) (slug : String) (tool : ToolRow)
    (t₀ : Trail) (p : Handler Unit) : Prop :=
  ∀ t, Quiet t₀ t → Always (Log.Step Statement.run may fails) p
    (fun _ t' => Quiet t₀ t' ∧ InContainer cfg slug tool t') (fun _ => Quiet t₀) t

theorem installs_builtin (hmethod : tool.installMethod ≠ .binary) :
    Installs may fails cfg slug tool t₀ (installBuiltin slug tool) := by
  intro t hq
  unfold installBuiltin
  refine always_then _ (always_quiet_query hq rfl) ?_
  intro result t' ⟨hquiet, hmem⟩
  refine always_ite (fun _ => hquiet) fun hcode => ⟨hquiet, _, hmem, rfl, not_not.mp hcode, ?_⟩
  rw [if_neg hmethod]

theorem installs_apt (hmethod : tool.installMethod ≠ .binary) :
    Installs may fails cfg slug tool t₀ (installApt slug tool) := by
  intro t hq
  unfold installApt
  refine always_then _ (always_quiet_query hq rfl) ?_
  intro result t' ⟨hquiet, _⟩
  exact always_ite (fun _ => hquiet) fun _ => installs_builtin hmethod t' hquiet

theorem keeps_validateDownloadUrl {P : Trail → Prop} (url : String) :
    Keeps (Log.Step Statement.run may fails) P (validateDownloadUrl cfg url) := by
  unfold validateDownloadUrl
  split
  · exact keeps_throw _
  · exact keeps_ite (fun _ => keeps_throw _) fun _ =>
      keeps_ite (fun _ => keeps_throw _) fun _ => keeps_pure ()

theorem keeps_hops (url : String) (left : ℕ) (currentUrl : String) :
    Keeps (Log.Step Statement.run may fails) (Quiet t₀) (hops cfg url left currentUrl) := by
  induction left generalizing currentUrl with
  | zero => exact keeps_throw _
  | succ left ih =>
    rw [hops]
    refine keeps_bind (keeps_query fun _ _ _ hq h => hq.step rfl h) fun resp => keeps_ite ?_ ?_
    · intro _
      split
      · exact keeps_throw _
      · split
        · exact keeps_throw _
        · exact keeps_bind (keeps_validateDownloadUrl _) fun _ => ih _
    · exact fun _ => keeps_ite (fun _ => keeps_throw _) fun _ =>
        keeps_ite (fun _ => keeps_throw _) fun _ => keeps_pure _

theorem installs_binary (hmethod : tool.installMethod = .binary) :
    Installs may fails cfg slug tool t₀ (installBinary cfg slug tool) := by
  intro t hq
  unfold installBinary
  refine always_then _ (always_quiet_query hq rfl) ?_
  intro check t' ⟨hquiet, hmem⟩
  refine always_ite (fun hcode => ?_) fun _ => ?_
  · exact ⟨hquiet, _, hmem, rfl, hcode, (if_pos hmethod).symm⟩
  · split
    · exact hquiet
    · exact hquiet
    · refine always_then (fun _ => Quiet t₀) ?_ ?_
      · exact keeps_bind (keeps_validateDownloadUrl _) (fun _ => keeps_hops _ _ _) t' hquiet
      · intro tarball t'' hdownloaded
        split
        · exact hdownloaded
        · rename_i script hscript
          refine always_then _ (always_quiet_query hdownloaded rfl) ?_
          intro result t₃ ⟨hquiet₃, hmem₃⟩
          exact always_ite (fun _ => hquiet₃) fun hcode =>
            ⟨hquiet₃, _, hmem₃, rfl, not_not.mp hcode, hmethod, script, hscript, rfl⟩

theorem installs_installTool : Installs may fails cfg slug tool t₀ (installTool cfg slug tool) := by
  unfold installTool
  cases hmethod : tool.installMethod with
  | builtin => exact installs_builtin (by simp [hmethod])
  | apt => exact installs_apt (by simp [hmethod])
  | binary => exact installs_binary hmethod

end Verified

section Faithfulness

variable (cfg : Config) (s : Store) (a : Uuid) (slug : String)

/-- The table is as it was, but for the tools that the skills of the agent need: a row of one of them
says `installed` only with the tool in the container.  Rows of other tools of the agent may be gone. -/
structure Faithful (t : Trail) : Prop where
  others : ∀ b, b ≠ a → ∀ i, t.store.row? b i = s.row? b i
  stale : ∀ i, i ∉ (s.requiredTools a).map ToolRow.id →
    t.store.row? a i = s.row? a i ∨ t.store.row? a i = none
  verified : ∀ tool ∈ s.requiredTools a, ∀ row, t.store.row? a tool.id = some row →
    s.row? a tool.id = some row ∨
      (row.status = .installed → row.installedAt.isSome ∧ InContainer cfg slug tool t)

def Done (t : Trail) (tool : ToolRow) : Prop :=
  ∃ row, t.store.row? a tool.id = some row ∧ row.status = .installed ∧ row.installedAt.isSome ∧
    InContainer cfg slug tool t

variable {cfg s a slug} {t₀ t t' : Trail} {tool : ToolRow}

theorem faithful_refl (t : Trail) : Faithful cfg t.store a slug t :=
  ⟨fun _ _ _ => rfl, fun _ _ => .inl rfl, fun _ _ _ h => .inl h⟩

theorem Faithful.quiet (h : Faithful cfg s a slug t) (hq : Quiet t t') : Faithful cfg s a slug t' := by
  constructor
  · rw [hq.store]
    exact h.others
  · rw [hq.store]
    exact h.stale
  · rw [hq.store]
    intro tool htool row hrow
    refine (h.verified tool htool row hrow).imp_right fun hverified hstatus => ?_
    obtain ⟨hat, hin⟩ := hverified hstatus
    exact ⟨hat, hin.mono hq.trace⟩

theorem ne_of_not_mem {i : Uuid} (htool : tool ∈ s.requiredTools a)
    (hi : i ∉ (s.requiredTools a).map ToolRow.id) : i ≠ tool.id :=
  fun heq => hi (heq ▸ List.mem_map_of_mem htool)

theorem eq_of_id_eq {d : ToolRow} (hd : d ∈ s.requiredTools a) (htool : tool ∈ s.requiredTools a)
    (hid : d.id = tool.id) : d = tool :=
  List.inj_on_of_nodup_map (s.nodup_requiredTools a) hd htool hid

theorem Faithful.upsert {status : InstallStatus} {message : String} {at' : Bool} {now : ℕ}
    (h : Faithful cfg s a slug t) (htool : tool ∈ s.requiredTools a)
    (hstore : t'.store = t.store.upsert a tool.id status message at' now)
    (htrace : t.trace <+: t'.trace)
    (hinstalled : status = .installed → at' = true ∧ InContainer cfg slug tool t) :
    Faithful cfg s a slug t' := by
  constructor
  · intro b hb i
    rw [hstore, Store.row?_upsert_ne fun heq => hb heq.1]
    exact h.others b hb i
  · intro i hi
    rw [hstore, Store.row?_upsert_ne fun heq => ne_of_not_mem htool hi heq.2]
    exact h.stale i hi
  · intro d hd row hrow
    by_cases hid : d.id = tool.id
    · cases eq_of_id_eq hd htool hid
      obtain ⟨row', hrow', hstatus, hat⟩ :=
        Store.row?_upsert_self t.store a tool.id status message at' now
      rw [hstore, hrow'] at hrow
      cases hrow
      right
      intro hst
      obtain ⟨hset, hin⟩ := hinstalled (hstatus ▸ hst)
      exact ⟨by rw [hat (hstatus ▸ hst) hset]; rfl, hin.mono htrace⟩
    · rw [hstore, Store.row?_upsert_ne fun heq => hid heq.2] at hrow
      refine (h.verified d hd row hrow).imp_right fun hverified hst => ?_
      exact ⟨(hverified hst).1, (hverified hst).2.mono htrace⟩

theorem Faithful.delete {i : Uuid} (h : Faithful cfg s a slug t)
    (hi : i ∉ (s.requiredTools a).map ToolRow.id) (hstore : t'.store = t.store.delete a i)
    (htrace : t.trace <+: t'.trace) : Faithful cfg s a slug t' := by
  constructor
  · intro b hb j
    rw [hstore, Store.row?_delete_ne fun heq => hb heq.1]
    exact h.others b hb j
  · intro j hj
    obtain rfl | hji := eq_or_ne j i
    · rw [hstore]
      exact .inr Store.row?_delete_self
    · rw [hstore, Store.row?_delete_ne fun heq => hji heq.2]
      exact h.stale j hj
  · intro d hd row hrow
    rw [hstore, Store.row?_delete_ne fun heq => ne_of_not_mem hd hi heq.2.symm] at hrow
    refine (h.verified d hd row hrow).imp_right fun hverified hst => ?_
    exact ⟨(hverified hst).1, (hverified hst).2.mono htrace⟩

end Faithfulness

section OneTool

variable (cfg : Config) (s : Store) (a : Uuid) (slug : String) (tool : ToolRow)

/-- At work on one tool since `t₀`: no row but that of the tool has changed. -/
structure Working (t₀ t : Trail) : Prop where
  faithful : Faithful cfg s a slug t
  trace : t₀.trace <+: t.trace
  frame : ∀ i, i ≠ tool.id → t.store.row? a i = t₀.store.row? a i

variable {cfg s a slug tool} {may : Choice → Prop} {fails : Prop} {t₀ t t' : Trail}

theorem Working.quiet (h : Working cfg s a slug tool t₀ t) (hq : Quiet t t') :
    Working cfg s a slug tool t₀ t' := by
  refine ⟨h.faithful.quiet hq, h.trace.trans hq.trace, ?_⟩
  rw [hq.store]
  exact h.frame

theorem Working.always_upsert {status : InstallStatus} {message : String} {at' : Bool}
    (h : Working cfg s a slug tool t₀ t) (htool : tool ∈ s.requiredTools a)
    (hinstalled : status = .installed → at' = true ∧ InContainer cfg slug tool t) :
    Always (Log.Step Statement.run may fails)
      (upsertInstallStatus a tool.id status message at')
      (fun _ t' => Working cfg s a slug tool t₀ t' ∧ (∃ row, t'.store.row? a tool.id = some row ∧
        row.status = status ∧ (status = .installed → row.installedAt.isSome)) ∧
        t.trace <+: t'.trace)
      (fun _ => Working cfg s a slug tool t₀) t := by
  have hwritten : ∀ (t' : Trail) (now : ℕ), t.trace <+: t'.trace →
      t'.store = t.store.upsert a tool.id status message at' now →
      Working cfg s a slug tool t₀ t' := by
    intro t' now htrace hstore
    refine ⟨h.faithful.upsert htool hstore htrace hinstalled, h.trace.trans htrace, ?_⟩
    intro i hi
    rw [hstore, Store.row?_upsert_ne fun heq => hi heq.2]
    exact h.frame i hi
  refine always_query (Statement.upsertInstallStatus a tool.id status message at') ?_ ?_
  · intro rows t' hstep
    obtain ⟨hnone, -⟩ | ⟨now, hstore⟩ := upsert_of_step hstep
    · cases hnone
    · refine ⟨hwritten t' now (trace_of_step hstep) hstore, ?_, trace_of_step hstep⟩
      obtain ⟨row, hrow, hstatus, hat⟩ :=
        Store.row?_upsert_self t.store a tool.id status message at' now
      refine ⟨row, hstore ▸ hrow, hstatus, fun hst => ?_⟩
      rw [hat hst (hinstalled hst).1]
      rfl
  · intro _ t' hstep
    obtain ⟨-, hstore⟩ | ⟨now, hstore⟩ := upsert_of_step hstep
    · exact h.quiet ⟨hstore, trace_of_step hstep⟩
    · exact hwritten t' now (trace_of_step hstep) hstore

theorem Working.always_installAttempt (htool : tool ∈ s.requiredTools a)
    (h : Working cfg s a slug tool t₀ t) :
    Always (Log.Step Statement.run may fails) (installAttempt cfg a slug tool)
      (fun o t' => Working cfg s a slug tool t₀ t' ∧ (o = none → Done cfg a slug t' tool))
      (fun _ => Working cfg s a slug tool t₀) t := by
  unfold installAttempt
  refine always_then (fun _ t' => Working cfg s a slug tool t₀ t' ∧ InContainer cfg slug tool t') ?_ ?_
  · exact (installs_installTool t (Quiet.refl t)).mono (fun _ _ hq => ⟨h.quiet hq.1, hq.2⟩)
      fun _ _ hq => h.quiet hq
  · intro _ t' ⟨hworking, hin⟩
    refine always_then _ (hworking.always_upsert htool fun _ => ⟨rfl, hin⟩) ?_
    intro _ t'' ⟨hworking', ⟨row, hrow, hstatus, hat⟩, htrace⟩
    exact ⟨hworking', fun _ => ⟨row, hrow, hstatus, hat rfl, hin.mono htrace⟩⟩

theorem Working.always_attempts (htool : tool ∈ s.requiredTools a) (retrying : ℕ → String → String)
    (left attempt : ℕ) (h : Working cfg s a slug tool t₀ t) :
    Always (Log.Step Statement.run may fails) (attempts cfg a slug tool retrying attempt left)
      (fun o t' => Working cfg s a slug tool t₀ t' ∧ (o = none → Done cfg a slug t' tool))
      (fun _ => Working cfg s a slug tool t₀) t := by
  induction left generalizing attempt t with
  | zero =>
    rw [attempts, always_tryCatch]
    refine (h.always_installAttempt htool).mono (fun _ _ hq => hq) fun err t' hworking => ?_
    exact ⟨hworking, fun hnone => by cases hnone⟩
  | succ left ih =>
    rw [attempts, always_tryCatch]
    refine (h.always_installAttempt htool).mono (fun _ _ hq => hq) fun err t' hworking => ?_
    refine always_then _ (hworking.always_upsert htool fun hst => by cases hst) ?_
    exact fun _ t'' hq => ih (attempt + 1) hq.1

end OneTool

section Ensuring

variable {cfg : Config} {s : Store} {a : Uuid} {slug : String} {tool : ToolRow}
  {may : Choice → Prop} {fails : Prop} {t₀ t t' : Trail}

theorem working_refl (h : Faithful cfg s a slug t) : Working cfg s a slug tool t t :=
  ⟨h, List.prefix_refl _, fun _ _ => rfl⟩

theorem Done.mono {d : ToolRow} (h : Done cfg a slug t₀ d) (hworking : Working cfg s a slug tool t₀ t)
    (hne : d.id ≠ tool.id) : Done cfg a slug t d := by
  obtain ⟨row, hrow, hstatus, hat, hin⟩ := h
  exact ⟨row, (hworking.frame d.id hne).trans hrow, hstatus, hat, hin.mono hworking.trace⟩

theorem always_ensureTool (htool : tool ∈ s.requiredTools a) (h : Faithful cfg s a slug t) :
    Always (Log.Step Statement.run may fails) (ensureTool cfg a slug tool)
      (fun _ t' => Working cfg s a slug tool t t' ∧ Done cfg a slug t' tool)
      (fun _ => Faithful cfg s a slug) t := by
  refine Always.mono (E := fun _ => Working cfg s a slug tool t) ?_ (fun _ _ hq => hq)
    fun _ _ hworking => hworking.faithful
  unfold ensureTool
  refine always_then _ ((working_refl h).always_upsert htool fun hst => by cases hst) ?_
  intro _ t₁ hstarted
  refine always_then _ (hstarted.1.always_attempts htool _ _ 0) ?_
  intro lastError t₂ ⟨hworking, hdone⟩
  cases lastError with
  | none => exact ⟨hworking, hdone rfl⟩
  | some err =>
    refine always_then _ (hworking.always_upsert htool fun hst => by cases hst) ?_
    exact fun _ t₃ hfailed => hfailed.1

theorem always_requiredTools : Always (Log.Step Statement.run may fails)
    (query (Statement.requiredTools a) : Handler (List ToolRow))
    (fun rows t' => Quiet t t' ∧ rows = t.store.requiredTools a) (fun _ => Quiet t) t := by
  refine always_query (Statement.requiredTools a) ?_ fun _ t' h => (Quiet.refl t).step rfl h
  intro rows t' h
  refine ⟨(Quiet.refl t).step rfl h, ?_⟩
  cases h with
  | answered _ heff =>
    cases heff
    rfl

theorem ne_id_of_split {done rest : List ToolRow} (hsplit : s.requiredTools a = done ++ tool :: rest)
    {d : ToolRow} (hd : d ∈ done) : d.id ≠ tool.id := by
  have hnodup := s.nodup_requiredTools a
  rw [hsplit, List.map_append, List.nodup_append] at hnodup
  exact hnodup.2.2 _ (List.mem_map_of_mem hd) _ (by simp)

theorem mem_of_split {done rest : List ToolRow} (hsplit : s.requiredTools a = done ++ tool :: rest) :
    tool ∈ s.requiredTools a := by
  rw [hsplit]
  simp

/-- When `ensureRequiredToolsInstalled` returns, each required tool has been installed. -/
theorem always_ensureRequiredToolsInstalled (h : Faithful cfg s a slug t) (hstore : t.store = s) :
    Always (Log.Step Statement.run may fails) (ensureRequiredToolsInstalled cfg a slug)
      (fun _ t' => Faithful cfg s a slug t' ∧ ∀ tool ∈ s.requiredTools a, Done cfg a slug t' tool)
      (fun _ => Faithful cfg s a slug) t := by
  unfold ensureRequiredToolsInstalled
  refine always_then _ (always_requiredTools.mono (fun _ _ hq => hq) fun _ _ hq => h.quiet hq) ?_
  rintro rows t₁ ⟨hquiet, rfl⟩
  rw [hstore]
  apply always_forM (I := fun done t => Faithful cfg s a slug t ∧ ∀ tool ∈ done, Done cfg a slug t tool)
  · exact ⟨h.quiet hquiet, by simp⟩
  · rintro done tool rest hsplit t₂ ⟨hfaithful, hdone⟩
    refine (always_ensureTool (mem_of_split hsplit) hfaithful).mono ?_ fun _ _ hq => hq
    rintro _ t₃ ⟨hworking, htool⟩
    refine ⟨hworking.faithful, fun d hd => ?_⟩
    obtain hd | hd := List.mem_append.mp hd
    · exact (hdone d hd).mono hworking (ne_id_of_split hsplit hd)
    · rw [List.mem_singleton.mp hd]
      exact htool

end Ensuring

section Reconciling

variable (cfg : Config) (s : Store) (a : Uuid) (slug : String)

def Store.has (s : Store) (a : Uuid) (status : InstallStatus) (tool : ToolRow) : Bool :=
  (s.row? a tool.id).any fun r => r.status = status

def names (p : ToolRow → Bool) (tools : List ToolRow) : List String := (tools.filter p).map ToolRow.name

/-- The loop of `reconcileToolInstalls` has done with some of the required tools. -/
structure Placed (done : List ToolRow) (result : Result) (t : Trail) : Prop where
  faithful : Faithful cfg s a slug t
  settled : ∀ tool ∈ done, t.store.has a .installed tool || t.store.has a .failed tool
  untouched : ∀ tool ∈ s.requiredTools a, tool ∉ done → t.store.row? a tool.id = s.row? a tool.id
  already : result.alreadyInstalled = names (s.has a .installed) done
  installed : result.installed =
    names (fun tool => !s.has a .installed tool && t.store.has a .installed tool) done
  failed : result.failed = names (t.store.has a .failed) done

variable {cfg s a slug} {tool : ToolRow} {may : Choice → Prop} {fails : Prop} {t₀ t t' : Trail}
  {done rest : List ToolRow} {result : Result}

theorem names_append (p : ToolRow → Bool) (done : List ToolRow) (tool : ToolRow) :
    names p (done ++ [tool]) = names p done ++ if p tool then [tool.name] else [] := by
  unfold names
  cases h : p tool <;> simp [h]

theorem names_congr {p q : ToolRow → Bool} (h : ∀ d ∈ done, p d = q d) : names p done = names q done :=
  congrArg _ (List.filter_congr h)

theorem has_eq {s s' : Store} {status : InstallStatus} (h : s.row? a tool.id = s'.row? a tool.id) :
    s.has a status tool = s'.has a status tool := by
  unfold Store.has
  rw [h]

theorem Placed.next (h : Placed cfg s a slug done result t)
    (hsplit : s.requiredTools a = done ++ tool :: rest) (hworking : Working cfg s a slug tool t t')
    (hsettled : t'.store.has a .installed tool || t'.store.has a .failed tool) :
    Placed cfg s a slug (done ++ [tool])
      ⟨result.installed ++
          (if !s.has a .installed tool && t'.store.has a .installed tool then [tool.name] else []),
        result.alreadyInstalled ++ (if s.has a .installed tool then [tool.name] else []),
        result.failed ++ (if t'.store.has a .failed tool then [tool.name] else [])⟩ t' := by
  have hsame : ∀ d ∈ done, t'.store.row? a d.id = t.store.row? a d.id :=
    fun d hd => hworking.frame d.id (ne_id_of_split hsplit hd)
  constructor
  · exact hworking.faithful
  · intro d hd
    obtain hd | hd := List.mem_append.mp hd
    · rw [has_eq (hsame d hd), has_eq (hsame d hd)]
      exact h.settled d hd
    · rw [List.mem_singleton.mp hd]
      exact hsettled
  · intro d hd hnot
    have hne : d ≠ tool := fun heq => hnot (by simp [heq])
    rw [hworking.frame d.id fun hid => hne (eq_of_id_eq hd (mem_of_split hsplit) hid)]
    exact h.untouched d hd fun hmem => hnot (List.mem_append_left _ hmem)
  · rw [names_append, ← h.already]
  · have hcongr : names (fun d => !s.has a .installed d && t.store.has a .installed d) done =
        names (fun d => !s.has a .installed d && t'.store.has a .installed d) done :=
      names_congr fun d hd => by rw [has_eq (hsame d hd)]
    rw [names_append, ← hcongr, ← h.installed]
  · have hcongr : names (t.store.has a .failed) done = names (t'.store.has a .failed) done :=
      names_congr fun d hd => has_eq (hsame d hd).symm
    rw [names_append, ← hcongr, ← h.failed]

theorem has_of_row {s : Store} {status st : InstallStatus} {row : Install}
    (hrow : s.row? a tool.id = some row) (hstatus : row.status = status) :
    s.has a st tool = decide (status = st) := by
  unfold Store.has
  rw [hrow, ← hstatus]
  rfl

theorem always_reconcileTool {installedSet : List Uuid} (h : Placed cfg s a slug done result t)
    (hset : ∀ i, i ∈ installedSet ↔ ∃ r, s.row? a i = some r ∧ r.status = .installed)
    (hsplit : s.requiredTools a = done ++ tool :: rest) :
    Always (Log.Step Statement.run may fails) (reconcileTool cfg a slug tool installedSet result)
      (fun result' => Placed cfg s a slug (done ++ [tool]) result')
      (fun _ => Faithful cfg s a slug) t := by
  have htool := mem_of_split hsplit
  have hnot : tool ∉ done := fun hmem => ne_id_of_split hsplit hmem rfl
  unfold reconcileTool
  refine always_ite (fun hmem => ?_) fun hmem => ?_
  · obtain ⟨row, hrow, hstatus⟩ := (hset tool.id).mp hmem
    have hrow' : t.store.row? a tool.id = some row := (h.untouched tool htool hnot).trans hrow
    have hnext := h.next hsplit (working_refl h.faithful) (by simp [has_of_row hrow' hstatus])
    simpa [has_of_row hrow hstatus, has_of_row hrow' hstatus] using hnext
  · have hfalse : s.has a .installed tool = false := by
      cases hrow : s.row? a tool.id with
      | none => rw [Store.has, hrow, Option.any_none]
      | some row =>
        rw [has_of_row hrow rfl]
        exact decide_eq_false fun hst => hmem ((hset tool.id).mpr ⟨row, hrow, hst⟩)
    refine Always.mono (E := fun _ => Working cfg s a slug tool t) ?_ (fun _ _ hq => hq)
      fun _ _ hworking => hworking.faithful
    refine always_then _ ((working_refl h.faithful).always_upsert htool fun hst => by cases hst) ?_
    intro _ t₁ hstarted
    refine always_then _ (hstarted.1.always_attempts htool _ _ 0) ?_
    intro lastError t₂ ⟨hworking, hdone⟩
    cases lastError with
    | none =>
      obtain ⟨row, hrow, hstatus, -⟩ := hdone rfl
      have hnext := h.next hsplit hworking (by simp [has_of_row hrow hstatus])
      simpa [has_of_row hrow hstatus, hfalse] using hnext
    | some err =>
      refine always_then _ (hworking.always_upsert htool fun hst => by cases hst) ?_
      rintro _ t₃ ⟨hworking', ⟨row, hrow, hstatus, -⟩, -⟩
      have hnext := h.next hsplit hworking' (by simp [has_of_row hrow hstatus])
      simpa [has_of_row hrow hstatus, hfalse] using hnext

theorem always_reconcileTools {installedSet : List Uuid}
    (hset : ∀ i, i ∈ installedSet ↔ ∃ r, s.row? a i = some r ∧ r.status = .installed)
    (hsplit : s.requiredTools a = done ++ rest) (h : Placed cfg s a slug done result t) :
    Always (Log.Step Statement.run may fails)
      (reconcileTools cfg a slug installedSet rest result)
      (fun result' => Placed cfg s a slug (s.requiredTools a) result')
      (fun _ => Faithful cfg s a slug) t := by
  induction rest generalizing done result t with
  | nil =>
    rw [List.append_nil] at hsplit
    rw [hsplit]
    exact h
  | cons tool rest ih =>
    rw [reconcileTools]
    refine always_then _ (always_reconcileTool h hset hsplit) ?_
    exact fun result' t' hplaced => ih (by simp [hsplit]) hplaced

theorem always_existingInstalls : Always (Log.Step Statement.run may fails)
    (query (Statement.existingInstalls a) : Handler (List (Uuid × InstallStatus)))
    (fun rows t' => Quiet t t' ∧ rows = t.store.existingInstalls a) (fun _ => Quiet t) t := by
  refine always_query (Statement.existingInstalls a) ?_ fun _ t' h => (Quiet.refl t).step rfl h
  intro rows t' h
  refine ⟨(Quiet.refl t).step rfl h, ?_⟩
  cases h with
  | answered _ heff =>
    cases heff
    rfl

theorem mem_installedSet {i : Uuid} :
    i ∈ ((s.existingInstalls a).filter fun r => r.2 = .installed).map (·.1) ↔
      ∃ r, s.row? a i = some r ∧ r.status = .installed := by
  rw [← Store.mem_existingInstalls, List.mem_map]
  constructor
  · rintro ⟨⟨j, st⟩, hmem, rfl⟩
    obtain ⟨hmem, hst⟩ := List.mem_filter.mp hmem
    cases (of_decide_eq_true hst : st = .installed)
    exact hmem
  · exact fun hmem => ⟨(i, .installed), List.mem_filter.mpr ⟨hmem, by simp⟩, rfl⟩

structure Reconciled (cfg : Config) (s : Store) (a : Uuid) (slug : String) (result : Result)
    (t : Trail) : Prop where
  faithful : Faithful cfg s a slug t
  rows : ∀ i, (t.store.row? a i).isSome ↔ i ∈ (s.requiredTools a).map ToolRow.id
  settled : ∀ tool ∈ s.requiredTools a, t.store.has a .installed tool || t.store.has a .failed tool
  already : result.alreadyInstalled = names (s.has a .installed) (s.requiredTools a)
  installed : result.installed = names
    (fun tool => !s.has a .installed tool && t.store.has a .installed tool) (s.requiredTools a)
  failed : result.failed = names (t.store.has a .failed) (s.requiredTools a)

theorem Placed.delete {i : Uuid} (h : Placed cfg s a slug (s.requiredTools a) result t)
    (hi : i ∉ (s.requiredTools a).map ToolRow.id) (hstore : t'.store = t.store.delete a i)
    (htrace : t.trace <+: t'.trace) : Placed cfg s a slug (s.requiredTools a) result t' := by
  have hsame : ∀ d ∈ s.requiredTools a, t'.store.row? a d.id = t.store.row? a d.id := by
    intro d hd
    rw [hstore, Store.row?_delete_ne fun heq => ne_of_not_mem hd hi heq.2.symm]
  constructor
  · exact h.faithful.delete hi hstore htrace
  · intro d hd
    rw [has_eq (hsame d hd), has_eq (hsame d hd)]
    exact h.settled d hd
  · exact fun d hd hnot => absurd hd hnot
  · exact h.already
  · rw [h.installed]
    exact names_congr fun d hd => by rw [has_eq (hsame d hd)]
  · rw [h.failed]
    exact names_congr fun d hd => has_eq (hsame d hd).symm

theorem always_reconcileToolInstalls (h : Faithful cfg s a slug t) (hstore : t.store = s) :
    Always (Log.Step Statement.run may fails) (reconcileToolInstalls cfg a slug)
      (Reconciled cfg s a slug) (fun _ => Faithful cfg s a slug) t := by
  unfold reconcileToolInstalls
  refine always_then _ (always_requiredTools.mono (fun _ _ hq => hq) fun _ _ hq => h.quiet hq) ?_
  rintro _ t₁ ⟨hquiet, rfl⟩
  have hfaithful₁ := h.quiet hquiet
  refine always_then _
    (always_existingInstalls.mono (fun _ _ hq => hq) fun _ _ hq => hfaithful₁.quiet hq) ?_
  rintro _ t₂ ⟨hquiet₂, rfl⟩
  rw [hquiet.store, hstore]
  have hstore₂ : t₂.store = s := by rw [hquiet₂.store, hquiet.store, hstore]
  have hstart : Placed cfg s a slug [] ⟨[], [], []⟩ t₂ := by
    refine ⟨hfaithful₁.quiet hquiet₂, by simp, fun _ _ _ => by rw [hstore₂], rfl, rfl, rfl⟩
  refine always_then _ (always_reconcileTools (fun _ => mem_installedSet) rfl hstart) ?_
  intro result t₃ hplaced
  -- the stale rows, one after the other
  refine always_then (fun _ t' => Placed cfg s a slug (s.requiredTools a) result t' ∧
    ∀ e ∈ (s.existingInstalls a).filter fun e => e.1 ∉ (s.requiredTools a).map ToolRow.id,
      t'.store.row? a e.1 = none) ?_ ?_
  · refine always_forM (I := fun (done : List (Uuid × InstallStatus)) t' =>
      Placed cfg s a slug (s.requiredTools a) result t' ∧
        ∀ e ∈ done, t'.store.row? a e.1 = none) ⟨hplaced, by simp⟩ ?_
    rintro done e rest hsplit t' ⟨hplaced', hdone⟩
    have he : e.1 ∉ (s.requiredTools a).map ToolRow.id := by
      have hmem : e ∈ (s.existingInstalls a).filter fun e => e.1 ∉ (s.requiredTools a).map ToolRow.id := by
        rw [hsplit]
        simp
      simpa using (List.mem_filter.mp hmem).2
    refine always_query (Statement.deleteInstall a e.1) ?_ ?_
    · intro _ t'' hstep
      obtain ⟨hnone, -⟩ | hdelete := delete_of_step hstep
      · cases hnone
      · refine ⟨hplaced'.delete he hdelete (trace_of_step hstep), fun e' he' => ?_⟩
        by_cases heq : e'.1 = e.1
        · rw [heq, hdelete, Store.row?_delete_self]
        · rw [hdelete, Store.row?_delete_ne fun hkey => heq hkey.2]
          obtain he' | he' := List.mem_append.mp he'
          · exact hdone e' he'
          · exact absurd (congrArg _ (List.mem_singleton.mp he')) heq
    · intro _ t'' hstep
      obtain ⟨-, hsame⟩ | hdelete := delete_of_step hstep
      · exact hplaced'.faithful.quiet ⟨hsame, trace_of_step hstep⟩
      · exact hplaced'.faithful.delete he hdelete (trace_of_step hstep)
  · rintro _ t₄ ⟨hplaced', hgone⟩
    refine ⟨hplaced'.faithful, fun i => ?_, hplaced'.settled, hplaced'.already, hplaced'.installed,
      hplaced'.failed⟩
    constructor
    · intro hsome
      by_contra hi
      obtain hsame | hnone := hplaced'.faithful.stale i hi
      · rw [hsame] at hsome
        obtain ⟨row, hrow⟩ := Option.isSome_iff_exists.mp hsome
        have hmem : (i, row.status) ∈ s.existingInstalls a := Store.mem_existingInstalls.mpr ⟨row, hrow, rfl⟩
        have hnone := hgone (i, row.status) (List.mem_filter.mpr ⟨hmem, by simpa using hi⟩)
        rw [hsame.symm.trans hnone] at hrow
        cases hrow
      · rw [hnone] at hsome
        cases hsome
    · intro hi
      obtain ⟨tool, htool, rfl⟩ := List.mem_map.mp hi
      have hsettled := hplaced'.settled tool htool
      cases hrow : t₄.store.row? a tool.id with
      | none => simp [Store.has, hrow] at hsettled
      | some row => rfl

def sampleStore : Store where
  agents := [1]
  agentSkills := [(1, 7)]
  skillTools := [(7, 20), (7, 21)]
  tools := ⟨[⟨20, "jq", .builtin, none⟩, ⟨21, "git", .builtin, none⟩, ⟨22, "vim", .builtin, none⟩], by
    decide⟩
  installs := ⟨[⟨1, 22, .installed, "installed", some 3, 3⟩], by decide⟩

def sampleConfig : Config := ⟨"2.74.2", "28.0.1", 1, fun _ => none, fun _ _ => none, id⟩

def exits (code : ℤ) : Choice := ⟨5, ⟨code, "", ""⟩, ⟨404, none, []⟩⟩

example : ((reconcileToolInstalls sampleConfig 1 "ada").play Statement.run (exits 0)
    ⟨[], sampleStore⟩ ([0, 0, 0, 1].map fun code => .answered (exits code))).2 =
      .ok ⟨["jq"], [], ["git"]⟩ := by decide

end Reconciling

section Trusting

variable (cfg : Config)

def AllowedUrl (url : String) : Prop :=
  ∃ parsed, cfg.parseUrl url = some parsed ∧ parsed.protocol = "https:" ∧
    parsed.hostname ∈ allowedDownloadHosts

/-- The tarball is a whole body, not an empty one, that an allowed host has sent with a 2xx. -/
def Downloaded (trace : List (Event Statement Statement.Rows)) (tarball : Bytes) : Prop :=
  ∃ url resp, .answered (Statement.fetch url) resp ∈ trace ∧ AllowedUrl cfg url ∧
    200 ≤ Download.status resp ∧ Download.status resp < 300 ∧ Download.body resp = tarball ∧ tarball ≠ []

def Sound (before : List (Event Statement Statement.Rows)) : Statement → Prop
  | .fetch url => AllowedUrl cfg url
  | .execWithStdin _ _ stdin _ => Downloaded cfg before stdin
  | _ => True

def Trusted (t : Trail) : Prop :=
  ∀ before e, before ++ [e] <+: t.trace → Sound cfg before e.statement

variable {cfg} {may : Choice → Prop} {fails : Prop} {t t' : Trail} {st : Statement}
  {answer : Option st.Rows} {a : Uuid} {slug : String} {tool : ToolRow}

theorem Trusted.step (h : Trusted cfg t) (hst : Sound cfg t.trace st)
    (hstep : Log.Step Statement.run may fails t st answer t') : Trusted cfg t' := by
  intro before e hprefix
  obtain ⟨e', htrace, hstatement, -⟩ := Log.event_of_step hstep
  rw [htrace, List.prefix_concat_iff] at hprefix
  obtain heq | hbefore := hprefix
  · obtain ⟨hbefore, he⟩ := List.append_inj' heq rfl
    cases he
    rw [hbefore, hstatement]
    exact hst
  · exact h before e hbefore

theorem keeps_trusted_query (hst : ∀ before, Sound cfg before st) :
    Keeps (Log.Step Statement.run may fails) (Trusted cfg) (query st : Handler st.Rows) :=
  keeps_query fun t _ _ ht hstep => ht.step (hst t.trace) hstep

theorem always_validateDownloadUrl (h : Trusted cfg t) (url : String) :
    Always (Log.Step Statement.run may fails) (validateDownloadUrl cfg url)
      (fun _ t' => Trusted cfg t' ∧ AllowedUrl cfg url) (fun _ => Trusted cfg) t := by
  unfold validateDownloadUrl
  split
  · exact h
  · rename_i parsed hparsed
    exact always_ite (fun _ => h) fun hprotocol => always_ite (fun _ => h) fun hhost =>
      ⟨h, parsed, hparsed, not_not.mp hprotocol, not_not.mp hhost⟩

/-- Each hop goes to a URL that has been checked, and the last one brings the tarball. -/
theorem always_hops (url : String) (left : ℕ) (currentUrl : String) (h : Trusted cfg t)
    (hurl : AllowedUrl cfg currentUrl) :
    Always (Log.Step Statement.run may fails) (hops cfg url left currentUrl)
      (fun tarball t' => Trusted cfg t' ∧ Downloaded cfg t'.trace tarball)
      (fun _ => Trusted cfg) t := by
  induction left generalizing currentUrl t with
  | zero => exact h
  | succ left ih =>
    rw [hops]
    refine always_then (fun resp t' => Trusted cfg t' ∧
      .answered (Statement.fetch currentUrl) resp ∈ t'.trace) ?_ ?_
    · have hsound : Sound cfg t.trace (Statement.fetch currentUrl) := hurl
      refine always_query (Statement.fetch currentUrl) (fun resp t' hstep => ?_)
        fun _ t' hstep => h.step hsound hstep
      refine ⟨h.step hsound hstep, ?_⟩
      rw [answered_of_step hstep]
      exact List.mem_append_right _ (List.mem_singleton.mpr rfl)
    · intro resp t' ⟨htrusted, hmem⟩
      refine always_ite (fun _ => ?_) fun _ => ?_
      · split
        · exact htrusted
        · split
          · exact htrusted
          · rename_i resolved _
            refine always_then _ (always_validateDownloadUrl htrusted resolved) ?_
            exact fun _ t'' hchecked => ih resolved hchecked.1 hchecked.2
      · refine always_ite (fun _ => htrusted) fun hok => always_ite (fun _ => htrusted) fun hbody => ?_
        obtain ⟨hleast, hmost⟩ := not_not.mp hok
        exact ⟨htrusted, currentUrl, resp, hmem, hurl, hleast, hmost, rfl, hbody⟩

theorem always_downloadTarball (url : String) (h : Trusted cfg t) :
    Always (Log.Step Statement.run may fails) (downloadTarball cfg url)
      (fun tarball t' => Trusted cfg t' ∧ Downloaded cfg t'.trace tarball)
      (fun _ => Trusted cfg) t := by
  unfold downloadTarball
  refine always_then _ (always_validateDownloadUrl h url) ?_
  exact fun _ t' hchecked => always_hops url _ url hchecked.1 hchecked.2

theorem trusts_installBuiltin : Keeps (Log.Step Statement.run may fails) (Trusted cfg)
    (installBuiltin slug tool) :=
  keeps_bind (keeps_trusted_query fun _ => trivial) fun _ =>
    keeps_ite (fun _ => keeps_throw _) fun _ => keeps_pure ()

theorem trusts_installBinary : Keeps (Log.Step Statement.run may fails) (Trusted cfg)
    (installBinary cfg slug tool) := by
  unfold installBinary
  refine keeps_bind (keeps_trusted_query fun _ => trivial) fun check =>
    keeps_ite (fun _ => keeps_pure ()) fun _ => ?_
  split
  · exact keeps_throw _
  · exact keeps_throw _
  · intro t h
    refine always_then _ (always_downloadTarball _ h) ?_
    intro tarball t' ⟨htrusted, hdownloaded⟩
    split
    · exact htrusted
    · rename_i script _
      refine always_then (fun _ => Trusted cfg) ?_ ?_
      · have hsound : Sound cfg t'.trace (Statement.execWithStdin slug ["bash", "-lc", script] tarball
            InstallMethod.binary.timeout) := hdownloaded
        exact always_query _ (fun _ t'' hstep => htrusted.step hsound hstep) fun _ t'' hstep =>
          htrusted.step hsound hstep
      · exact fun result t'' h' => always_ite (fun _ => h') fun _ => h'

theorem trusts_installTool : Keeps (Log.Step Statement.run may fails) (Trusted cfg)
    (installTool cfg slug tool) := by
  unfold installTool
  split
  · exact trusts_installBuiltin
  · exact keeps_bind (keeps_trusted_query fun _ => trivial) fun _ =>
      keeps_ite (fun _ => keeps_throw _) fun _ => trusts_installBuiltin
  · exact trusts_installBinary

theorem trusts_upsert {i : Uuid} {status : InstallStatus} {message : String} {at' : Bool} :
    Keeps (Log.Step Statement.run may fails) (Trusted cfg)
      (upsertInstallStatus a i status message at') := keeps_trusted_query fun _ => trivial

theorem trusts_attempts (retrying : ℕ → String → String) (left attempt : ℕ) :
    Keeps (Log.Step Statement.run may fails) (Trusted cfg)
      (attempts cfg a slug tool retrying attempt left) := by
  have hattempt : Keeps (Log.Step Statement.run may fails) (Trusted cfg)
      (installAttempt cfg a slug tool) :=
    keeps_bind trusts_installTool fun _ => keeps_bind trusts_upsert fun _ => keeps_pure none
  induction left generalizing attempt with
  | zero => exact keeps_tryCatch hattempt fun err => keeps_pure _
  | succ left ih => exact keeps_tryCatch hattempt fun err => keeps_bind trusts_upsert fun _ => ih _

theorem trusts_ensureRequiredToolsInstalled : Keeps (Log.Step Statement.run may fails) (Trusted cfg)
    (ensureRequiredToolsInstalled cfg a slug) := by
  refine keeps_bind (keeps_trusted_query fun _ => trivial) fun rows => keeps_forM fun tool _ => ?_
  refine keeps_bind trusts_upsert fun _ => keeps_bind (trusts_attempts _ _ _) fun lastError => ?_
  cases lastError with
  | none => exact keeps_pure _
  | some err => exact keeps_bind trusts_upsert fun _ => keeps_throw _

theorem trusts_reconcileTools (installedSet : List Uuid) (tools : List ToolRow) (result : Result) :
    Keeps (Log.Step Statement.run may fails) (Trusted cfg)
      (reconcileTools cfg a slug installedSet tools result) := by
  induction tools generalizing result with
  | nil => exact keeps_pure result
  | cons tool tools ih =>
    refine keeps_bind (keeps_ite (fun _ => keeps_pure _) fun _ => ?_) fun result' => ih result'
    refine keeps_bind trusts_upsert fun _ => keeps_bind (trusts_attempts _ _ _) fun lastError => ?_
    cases lastError with
    | none => exact keeps_pure _
    | some err => exact keeps_bind trusts_upsert fun _ => keeps_pure _

theorem trusts_reconcileToolInstalls : Keeps (Log.Step Statement.run may fails) (Trusted cfg)
    (reconcileToolInstalls cfg a slug) := by
  refine keeps_bind (keeps_trusted_query fun _ => trivial) fun requiredTools =>
    keeps_bind (keeps_trusted_query fun _ => trivial) fun existingInstalls =>
    keeps_bind (trusts_reconcileTools _ _ _) fun result => keeps_bind ?_ fun _ => keeps_pure result
  exact keeps_forM fun existing _ => keeps_trusted_query fun _ => trivial

end Trusting

section Quoting

def breaks : List Char := [' ', '\t', '\n', '|', '&', ';', '(', ')', '<', '>']

/-- What a word has expanded, or begins quotes of another kind. -/
def expands : List Char := ['$', Char.ofNat 96, '"', '*', '?', '[', '~', '#']

/-- The word that a POSIX shell reads at the beginning of a text, and what it leaves; the flag says
that it is inside single quotes.  There is none where the quotes do not end, and none where the shell
would expand something. -/
def word : Bool → List Char → Option (List Char × List Char)
  | false, [] => some ([], [])
  | true, [] => none
  | true, c :: cs =>
    if c = quote then word false cs else (word true cs).map fun w => (c :: w.1, w.2)
  | false, c :: cs =>
    if c = quote then word true cs
    else if c = '\\' then
      match cs with
      | [] => none
      | d :: ds =>
        if d = '\n' then word false ds else (word false ds).map fun w => (d :: w.1, w.2)
    else if c ∈ breaks then some ([], c :: cs)
    else if c ∈ expands then none
    else (word false cs).map fun w => (c :: w.1, w.2)

theorem word_open (cs : List Char) : word false (quote :: cs) = word true cs := by
  cases cs <;> simp [word]

theorem word_quoted (value rest : List Char) :
    word true ((value.flatMap fun c => if c = quote then [quote, '\\', quote, quote] else [c]) ++
      quote :: rest) = (word false rest).map fun w => (value ++ w.1, w.2) := by
  induction value with
  | nil => simp [word]
  | cons c value ih =>
    rw [List.flatMap_cons, List.append_assoc]
    by_cases hc : c = quote
    · -- the quotes end, an escaped one follows, and they begin again
      subst hc
      have hescape : quote ≠ '\\' ∧ quote ≠ '\n' := by decide
      simp only [if_pos, List.cons_append, List.nil_append, word, if_neg hescape.1.symm,
        if_neg hescape.2, word_open, ih, Option.map_map]
      rfl
    · simp only [if_neg hc, List.cons_append, List.nil_append, word, ih, Option.map_map]
      rfl

/-- A shell reads a quoted value back as it is, whatever characters are in it, and goes on with the
same word. -/
theorem word_shellQuote (value : String) (rest : List Char) :
    word false ((shellQuote value).toList ++ rest) =
      (word false rest).map fun w => (value.toList ++ w.1, w.2) := by
  rw [← word_quoted, ← word_open, shellQuote, String.toList_ofList]
  simp only [List.cons_append, List.append_assoc, List.nil_append]

end Quoting

section Plays

variable (cfg : Config) (s : Store) (a : Uuid) (slug : String) (rest : Choice)
  (pattern : List (Outcome Choice String))

theorem allowed_any {o : Outcome Choice String} : o.Allowed (fun _ => True) True := by
  cases o with
  | answered c => exact trivial
  | failed e => exact trivial
  | lost c e => exact ⟨trivial, trivial⟩

/-- However its statements come back, a start that gets past its tools has each of them installed and
found in the container; one that does not has left no row that says so without. -/
theorem ensureRequiredToolsInstalled_installs :
    Ended (fun _ t => Faithful cfg s a slug t ∧ ∀ tool ∈ s.requiredTools a, Done cfg a slug t tool)
      (fun _ => Faithful cfg s a slug)
      ((ensureRequiredToolsInstalled cfg a slug).play Statement.run rest ⟨[], s⟩ pattern) :=
  (always_ensureRequiredToolsInstalled (faithful_refl ⟨[], s⟩) rfl).play Statement.run rest trivial pattern
    fun _ _ => allowed_any

/-- A reconciliation that returns has exactly the rows of the required tools, each installed or
failed, and its three lists are the tools by what has become of them. -/
theorem reconcileToolInstalls_converges :
    Ended (Reconciled cfg s a slug) (fun _ => Faithful cfg s a slug)
      ((reconcileToolInstalls cfg a slug).play Statement.run rest ⟨[], s⟩ pattern) :=
  (always_reconcileToolInstalls (faithful_refl ⟨[], s⟩) rfl).play Statement.run rest trivial pattern
    fun _ _ => allowed_any

/-- Whatever the servers send and wherever they redirect to, nothing is fetched but from an allowed
host by HTTPS, and nothing goes into a container as a tarball but what such a host has sent. -/
theorem downloads_trusted :
    Trusted cfg ((ensureRequiredToolsInstalled cfg a slug).play Statement.run rest ⟨[], s⟩ pattern).1 ∧
      Trusted cfg ((reconcileToolInstalls cfg a slug).play Statement.run rest ⟨[], s⟩ pattern).1 := by
  have hstart : Trusted cfg ⟨[], s⟩ := fun before e h => by simp at h
  have hends : ∀ {α : Type} (p : Handler α),
      Keeps (Log.Step Statement.run (fun _ => True) True) (Trusted cfg) p →
      Trusted cfg (p.play Statement.run rest ⟨[], s⟩ pattern).1 := by
    intro α p hp
    have hended := (hp _ hstart).play Statement.run rest trivial pattern fun _ _ => allowed_any
    generalize p.play Statement.run rest ⟨[], s⟩ pattern = ending at hended
    obtain ⟨t, _ | _⟩ := ending <;> exact hended
  exact ⟨hends _ trusts_ensureRequiredToolsInstalled, hends _ trusts_reconcileToolInstalls⟩

end Plays

end Hill90.Agents.ToolInstalls
