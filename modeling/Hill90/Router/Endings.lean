import Hill90.Router.Charging

/-! # How a stream ends and what is logged of it

A stream is relayed to its end, LiteLLM breaks it off, or it is cancelled, closed or thrown into.
`_stream_and_log` tells these apart by two flags, and takes what sets neither for a success.
-/

namespace Hill90.Router

open Program

def openings (t : Transcript) : List (List Chunk) := t.filterMap fun said => match said with
  | ⟨.openStream .., .ok (.opened chunks)⟩ => some chunks
  | _ => none

def isReceived : Said Statement Statement.Rows Failure → Bool
  | ⟨.nextChunk, .ok _⟩ => true
  | _ => false

def isRelayed : Said Statement Statement.Rows Failure → Bool
  | ⟨.sendChunk, .ok _⟩ => true
  | _ => false

/-- LiteLLM's stream was read to its end, and each chunk of it was passed on. -/
def RelayedToEnd (t : Transcript) : Prop :=
  ∃ chunks ∈ openings t, t.countP isReceived = chunks.length + 1 ∧ t.countP isRelayed = chunks.length

def Truthful (t : Transcript) : Prop :=
  ∃ row, charges t = [row] ∧ (row.status = .success ↔ RelayedToEnd t)

/-- The ways of coming back after which the row is missing or untrue: the opening is cancelled,
answered with an error of body `null`, or the response cannot be begun; the generator is closed
while it waits, or ended where it has passed a chunk on by anything but a cancellation; the row
cannot be written. -/
def misleads : Said Statement Statement.Rows Failure → Bool
  | ⟨.openStream .., .error e⟩ => !e.isException
  | ⟨.openStream .., .ok .rejectedNull⟩ => true
  | ⟨.startResponse, .error _⟩ => true
  | ⟨.nextChunk, .error e⟩ => e = .closed
  | ⟨.sendChunk, .error e⟩ => e ≠ .cancelled
  | ⟨.insertUsage _, .error _⟩ => true
  | _ => false

def Misled (t : Transcript) : Prop := ∃ said ∈ t, misleads said = true

/-- A stream under way: no row yet, these chunks to come in all, and so many received and relayed. -/
structure Streaming (streams : List (List Chunk)) (received relayed : ℕ) (misled : Bool)
    (t : Transcript) : Prop where
  blank : charges t = []
  streams : openings t = streams
  received : t.countP isReceived = received
  relayed : t.countP isRelayed = relayed
  misled : Misled t ↔ misled = true

variable {t u : Transcript} {st : Statement} {answer : Except Failure st.Rows}
  {streams : List (List Chunk)} {received relayed : ℕ} {misled : Bool}

theorem misled_heard (h : Heard t st answer u) : Misled u ↔ Misled t ∨ misleads ⟨st, answer⟩ = true := by
  rw [h]
  simp [Misled, or_and_right, exists_or]

/-- What one more statement adds to a stream. -/
theorem Streaming.heard (h : Streaming streams received relayed misled t) (hrow : rowOf ⟨st, answer⟩ = none)
    (hheard : Heard t st answer u) :
    Streaming (streams ++ openings [⟨st, answer⟩]) (received + [⟨st, answer⟩].countP isReceived)
      (relayed + [⟨st, answer⟩].countP isRelayed) (misled || misleads ⟨st, answer⟩) u := by
  refine ⟨?_, ?_, ?_, ?_, ?_⟩
  · rw [charges_heard hheard, h.blank, hrow]
    rfl
  · rw [hheard, openings, List.filterMap_append, ← openings, ← openings, h.streams]
  · rw [hheard, List.countP_append, h.received]
  · rw [hheard, List.countP_append, h.relayed]
  · rw [misled_heard hheard, h.misled, Bool.or_eq_true]

theorem Streaming.untrue (h : Streaming streams received relayed true t) : Truthful t ↔ ¬Misled t := by
  refine iff_of_false ?_ (not_not.mpr (h.misled.mpr rfl))
  rintro ⟨row, hrow, _⟩
  rw [h.blank] at hrow
  cases hrow

theorem ensures_logged {α : Type} {row : Usage} (h : Streaming streams received relayed misled t)
    (htrue : (row.status = .success ↔ ∃ chunks ∈ streams, received = chunks.length + 1 ∧ relayed = chunks.length) ↔
      misled = false) (p : Handler α)
    (hp : ∀ u, Ensures Heard p (fun _ => (· = u)) (fun _ => (· = u)) u) :
    Ensures Heard (logUsage row >>= fun _ => p) (fun _ t => Truthful t ↔ ¬Misled t)
      (fun _ t => Truthful t ↔ ¬Misled t) t := by
  refine ⟨fun _ u hu => ?_, fun e u hu => ?_⟩
  · have hrelayed : RelayedToEnd u ↔
        ∃ chunks ∈ streams, received = chunks.length + 1 ∧ relayed = chunks.length := by
      unfold RelayedToEnd openings
      rw [hu, List.filterMap_append, List.countP_append, List.countP_append, ← openings, h.streams,
        h.received, h.relayed]
      simp [isReceived, isRelayed]
    have hmisled : Misled u ↔ misled = true := by
      rw [misled_heard hu, h.misled]
      simp [misleads]
    have hcharges : charges u = [row] := by
      rw [charges_heard hu, h.blank]
      rfl
    have hends : Truthful u ↔ ¬Misled u := by
      rw [hmisled, Bool.not_eq_true, ← htrue]
      unfold Truthful
      rw [hcharges, hrelayed]
      constructor
      · rintro ⟨row', hrow, hstatus⟩
        cases hrow
        exact hstatus
      · exact fun hstatus => ⟨row, rfl, hstatus⟩
    refine (hp u).mono (fun a v hv => ?_) fun e v hv => ?_
    · cases hv
      exact hends
    · cases hv
      exact hends
  · have hlost : Streaming streams received relayed true u := by
      have hheard := h.heard rfl hu
      simpa [openings, isReceived, isRelayed, misleads] using hheard
    refine (ensures_bind _ _).mpr (ensures_ite (fun _ => ?_) fun _ => hlost.untrue)
    refine (hp u).mono (fun a v hv => ?_) fun e v hv => ?_
    · cases hv
      exact hlost.untrue
    · cases hv
      exact hlost.untrue

/-- The status that is logged is true exactly where nothing has misled it. -/
def Closing (status : UsageStatus) (t : Transcript) : Prop :=
  ∃ streams received relayed misled, Streaming streams received relayed misled t ∧
    ((status = .success ↔ ∃ chunks ∈ streams, received = chunks.length + 1 ∧ relayed = chunks.length) ↔
      misled = false)

/-- A stream whose loop ends before all is received. -/
theorem Streaming.broken {chunks : List Chunk} (h : Streaming [chunks] received relayed misled t)
    (hreceived : received ≤ chunks.length) {status : UsageStatus}
    (hmisled : misled = decide (status = .success)) : Closing status t := by
  refine ⟨_, _, _, _, h, ?_⟩
  have hunrelayed : ¬∃ chunks' ∈ [chunks], received = chunks'.length + 1 ∧ relayed = chunks'.length := by
    rintro ⟨chunks', hmem, hall, _⟩
    rw [List.mem_singleton] at hmem
    subst hmem
    omega
  rw [hmisled, decide_eq_false_iff_not]
  exact ⟨fun htrue hsuccess => hunrelayed (htrue.mp hsuccess),
    fun hfailure => iff_of_false hfailure hunrelayed⟩

theorem generate_closes {all : List Chunk} (chunks : List Chunk) (r : StreamingResult) (hr : r.error = false)
    (h : Streaming [all] received relayed false t) (hreceived : received + chunks.length = all.length)
    (hrelayed : relayed = received) :
    Ensures Heard (generate chunks r) (fun ended => Closing (streamStatus ended.1 ended.2))
      (fun _ _ => False) t := by
  induction chunks generalizing r received relayed t with
  | nil =>
    refine ensures_attempt fun answer u hu => ?_
    have hnext := h.heard rfl hu
    cases answer with
    | error e =>
      refine hnext.broken (by simpa [isReceived] using hreceived.le) ?_
      cases e <;> simp [misleads, streamStatus, Failure.isException]
    | ok _ =>
      refine ⟨_, _, _, _, hnext, ?_⟩
      simp only [List.length_nil, Nat.add_zero] at hreceived
      simp [openings, isReceived, isRelayed, misleads, streamStatus, hr, hreceived, hrelayed]
  | cons chunk chunks ih =>
    rw [List.length_cons] at hreceived
    refine ensures_attempt fun answer u hu => ?_
    have hnext := h.heard rfl hu
    cases answer with
    | error e =>
      refine hnext.broken (by simp [isReceived]; omega) ?_
      cases e <;> simp [misleads, streamStatus, Failure.isException]
    | ok _ =>
      refine ensures_attempt fun answer v hv => ?_
      have hsent := hnext.heard rfl hv
      cases answer with
      | error e =>
        refine hsent.broken (by simp [isReceived]; omega) ?_
        cases e <;> simp [misleads, streamStatus, hr]
      | ok _ =>
        have hpassed : Streaming [all] (received + 1) (relayed + 1) false v := by
          simpa [openings, isReceived, isRelayed, misleads] using hsent
        refine ensures_ite (fun _ => hpassed.broken (by omega) (by simp [streamStatus])) fun _ => ?_
        refine ih _ ?_ hpassed (by omega) (by omega)
        cases chunk.usage <;> exact hr

theorem Closing.heard {status : UsageStatus} (h : Closing status t) {answer : Except Failure Unit}
    (hheard : Heard t .sendError answer u) : Closing status u := by
  obtain ⟨streams, received, relayed, misled, hstreaming, htrue⟩ := h
  have hnext := hstreaming.heard (by cases answer <;> rfl) hheard
  refine ⟨_, _, _, _, hnext, ?_⟩
  cases answer <;> simpa [openings, isReceived, isRelayed, misleads] using htrue

theorem announce_closes {status : UsageStatus} (ending : Option Failure) (h : Closing status t) :
    Ensures Heard (announce ending) (fun _ => Closing status) (fun _ _ => False) t := by
  cases ending with
  | none => exact h
  | some e =>
    refine ensures_ite (fun _ => ensures_attempt fun answer u hu => ?_) fun _ => h
    have hnext := h.heard hu
    cases answer with
    | error e' => exact hnext
    | ok _ => exact hnext

/-- What the code does of a run: the row is missing or untrue exactly where something misled it. -/
def Accurate (t : Transcript) : Prop := Truthful t ↔ ¬Misled t

theorem accurate_streamAndLog (q : Attempt) (r : Resolved)
    {stream : Handler (StreamingResult × Option Failure)}
    (hstream : Ensures Heard stream (fun ended => Closing (streamStatus ended.1 ended.2))
      (fun _ _ => False) t) :
    Ensures Heard (streamAndLog q r stream) (fun _ => Accurate) (fun _ => Accurate) t := by
  refine ensures_then _ (hstream.mono (fun _ _ h => h) fun _ _ h => h.elim) fun ended u hu => ?_
  refine ensures_then _ ((announce_closes ended.2 hu).mono (fun _ _ h => h) fun _ _ h => h.elim)
    fun raised v hv => ?_
  obtain ⟨streams, received, relayed, misled, hstreaming, htrue⟩ := hv
  refine ensures_logged hstreaming htrue _ fun w => ?_
  cases raised with
  | none => rfl
  | some e => rfl

theorem accurate_proxyError (q : Attempt) (r : Resolved) {e : Failure}
    (h : Streaming [] 0 0 (!e.isException) t) :
    Ensures Heard (proxyError q r e) (fun _ => Accurate) (fun _ => Accurate) t := by
  refine ensures_ite (fun he => ?_) fun he => ?_
  · rw [he] at h
    exact ensures_logged h (by simp [Attempt.charge, Attempt.row]) _ fun u => rfl
  · rw [Bool.eq_false_of_not_eq_true he] at h
    exact h.untrue

theorem streaming_nil : Streaming [] 0 0 false [] := ⟨rfl, rfl, rfl, rfl, by simp [Misled]⟩

/-- A stream is begun in the state that its opening left, and only then is there a generator. -/
theorem accurate_begin (q : Attempt) (r : Resolved) (h : Streaming streams 0 0 misled t)
    {stream : Handler (StreamingResult × Option Failure)}
    (hstream : ∀ u, Streaming streams 0 0 misled u → Ensures Heard stream
      (fun ended => Closing (streamStatus ended.1 ended.2)) (fun _ _ => False) u) :
    Ensures Heard (ask .startResponse >>= fun _ => streamAndLog q r stream) (fun _ => Accurate)
      (fun _ => Accurate) t := by
  refine ensures_ask (fun rows u hu => accurate_streamAndLog q r (hstream u ?_)) fun e u hu => ?_
  · simpa [openings, isReceived, isRelayed, misleads] using h.heard rfl hu
  · have hlost : Streaming streams 0 0 true u := by
      simpa [openings, isReceived, isRelayed, misleads] using h.heard rfl hu
    exact hlost.untrue

/-- However a stream is opened, relayed and ended: it leaves one row, and that says success exactly if
the stream was relayed to its end, except where its end misleads `_stream_and_log`. -/
theorem truthful_iff {q : Attempt} {r : Resolved} {result : Except Failure Response} {t : Transcript}
    (h : Runs Heard (handleStreaming q r) [] result t) : Truthful t ↔ ¬Misled t := by
  have hends : Ensures Heard (handleStreaming q r) (fun _ => Accurate) (fun _ => Accurate) [] := by
    refine ensures_attempt fun answer u hu => ?_
    have hopened := streaming_nil.heard (by cases answer <;> rfl) hu
    match answer with
    | .error e =>
      refine accurate_proxyError q r ?_
      simpa [openings, isReceived, isRelayed, misleads] using hopened
    | .ok (.rejected statusCode) =>
      refine ensures_logged hopened ?_ _ fun u => rfl
      simp [Attempt.charge, Attempt.row, openings, misleads]
    | .ok .rejectedNull =>
      have hbegun : Streaming [] 0 0 true u := by
        simpa [openings, isReceived, isRelayed, misleads] using hopened
      exact accurate_begin q r hbegun fun v hv => ⟨_, _, _, _, hv, by simp [streamStatus]⟩
    | .ok (.opened chunks) =>
      have hbegun : Streaming [chunks] 0 0 false u := by
        simpa [openings, isReceived, isRelayed, misleads] using hopened
      exact accurate_begin q r hbegun fun v hv =>
        generate_closes chunks {} rfl hv (Nat.zero_add _) rfl
  cases result with
  | ok a => exact (hends.of_runs h).1 a rfl
  | error e => exact (hends.of_runs h).2 e rfl

theorem run_answered {α : Type} {st : Statement} {k : st.Rows → Handler α} {r : Failure → Handler α}
    {result : Except Failure α} (rows : st.Rows)
    (h : Runs Heard (k rows) (t ++ [⟨st, .ok rows⟩]) result u) : Runs Heard (.await st k r) t result u :=
  .answered rfl h

theorem run_rejected {α : Type} {st : Statement} {k : st.Rows → Handler α} {r : Failure → Handler α}
    {result : Except Failure α} (e : Failure)
    (h : Runs Heard (r e) (t ++ [⟨st, .error e⟩]) result u) : Runs Heard (.await st k r) t result u :=
  .rejected rfl h

/-- A stream of one chunk, opened and begun, up to what its consumer does with the chunk. -/
def chunkReceived : Transcript :=
  [⟨.openStream "scout" (streamBody streamedResolved.body), .ok (.opened [{}])⟩,
    ⟨.startResponse, .ok ()⟩, ⟨.nextChunk, .ok ()⟩]

def successRow : Usage := streamedAttempt.charge streamedResolved .success (some 0) (some 0)

theorem truthful_relayed : ∃ result t,
    Runs Heard (handleStreaming streamedAttempt streamedResolved) [] result t ∧ (Truthful t ↔ ¬Misled t) := by
  have hrun : Runs Heard (handleStreaming streamedAttempt streamedResolved) [] (.ok .streamed)
      (chunkReceived ++ [⟨.sendChunk, .ok ()⟩, ⟨.nextChunk, .ok ()⟩, ⟨.insertUsage successRow, .ok ()⟩]) :=
    run_answered (StreamReply.opened [{}]) (run_answered () (run_answered () (run_answered ()
      (run_answered () (run_answered () (.reply _ _))))))
  exact ⟨_, _, hrun, truthful_iff hrun⟩

/-- The generator is closed where it has passed the only chunk on: the row says success, and the end
of the stream was never seen. -/
theorem closed_untruthful :
    ¬∀ (q : Attempt) (r : Resolved) (result : Except Failure Response) (t : Transcript),
      Runs Heard (handleStreaming q r) [] result t → Truthful t := by
  intro h
  have hrun : Runs Heard (handleStreaming streamedAttempt streamedResolved) [] (.error .closed)
      (chunkReceived ++ [⟨.sendChunk, .error .closed⟩, ⟨.insertUsage successRow, .ok ()⟩]) :=
    run_answered (StreamReply.opened [{}]) (run_answered () (run_answered ()
      (run_rejected .closed (run_answered () (.raise _ _)))))
  obtain ⟨row, hrow, hstatus⟩ := h _ _ _ _ hrun
  simp only [charges, chunkReceived, rowOf, List.cons_append, List.nil_append, List.filterMap,
    List.cons.injEq, and_true] at hrow
  subst hrow
  obtain ⟨chunks, hchunks, hreceived, _⟩ := hstatus.mp rfl
  simp only [openings, chunkReceived, List.cons_append, List.nil_append, List.filterMap,
    List.mem_singleton] at hchunks
  subst hchunks
  revert hreceived
  decide

end Hill90.Router
