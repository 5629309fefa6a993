import Discode.LifecycleSteps
import Discode.System
import Discode.Turns

/-!
# Steps that do not concern the ledger

Every step outside `run_input_saga`, the expiry of results and the writing stages of an
input handler leaves the turns, their history and the jobs in transit alone.
-/

set_option autoImplicit false

namespace Discode

/-- No token is stored and no session comes to life. -/
@[simp] abbrev Ordinary (x : Writer) : Prop := x.isOrdinary = true

/-- No token is stored. -/
@[simp] abbrev KeepsTokens (x : Writer) : Prop := x.storesToken = false

namespace Quiet

variable {w w' : World} {W W' : Writer → Prop}

theorem refl (w : World) : Quiet W w w :=
  ⟨fun _ ↦ .same _, rfl, rfl, fun _ ↦ rfl, fun _ h ↦ .inl h⟩

theorem of_tx (h : LifecycleTx W w.db w'.db) (hW : ∀ x, W x → W' x)
    (hstreams : w'.streams = w.streams)
    (hlog : ∀ key, turnLog key w'.log = turnLog key w.log) : Quiet W' w w' where
  core sid := (h.core sid).mono hW
  turns := h.turns
  sequence := h.sequence
  log := hlog
  carried p hp := by
    left
    rcases hp with ⟨id, row, hget, he⟩ | ⟨key, id, hmem⟩
    · exact .inl ⟨id, row, (h.inputJobs id row (by rw [he]; rfl)).mp hget, he⟩
    · exact .inr ⟨key, id, hstreams ▸ hmem⟩

/-- A database transaction alone. -/
theorem setDb {db : Database} (h : LifecycleTx W w.db db)
    (hW : ∀ x, W x → W' x) : Quiet W' w (w.setDb db) :=
  of_tx h hW rfl fun _ ↦ rfl

theorem of_streams (hdb : w'.db = w.db)
    (hstreams : ∀ key e, e ∈ (w'.streams key).entries → e ∈ (w.streams key).entries)
    (hlog : ∀ key, turnLog key w'.log = turnLog key w.log) : Quiet W w w' where
  core sid := hdb ▸ .same _
  turns := hdb ▸ rfl
  sequence := hdb ▸ rfl
  log := hlog
  carried p hp := by
    left
    rcases hp with ⟨id, row, hget, he⟩ | ⟨key, id, hmem⟩
    · exact .inl ⟨id, row, hdb ▸ hget, he⟩
    · exact .inr ⟨key, id, hstreams key _ hmem⟩

/-- Only bookkeeping columns of the outbox change, or rows disappear from it. -/
theorem of_outbox (hcore : ∀ sid, w'.db.core? sid = w.db.core? sid)
    (hturns : w'.db.inputTurns = w.db.inputTurns)
    (hseq : w'.db.nextSequence = w.db.nextSequence)
    (houtbox : ∀ id row', w'.db.outbox.get? id = some row' →
      ∃ row, w.db.outbox.get? id = some row ∧ row'.envelope = row.envelope)
    (hstreams : w'.streams = w.streams) (hlog : w'.log = w.log) : Quiet W w w' where
  core sid := hcore sid ▸ .same _
  turns := hturns
  sequence := hseq
  log key := by rw [hlog]
  carried p hp := by
    left
    rcases hp with ⟨id, row', hget, he⟩ | ⟨key, id, hmem⟩
    · obtain ⟨row, hrow, heq⟩ := houtbox id row' hget
      exact .inl ⟨id, row, hrow, heq ▸ he⟩
    · exact .inr ⟨key, id, hstreams ▸ hmem⟩

end Quiet

/-! ## Transactions -/

/-- A transaction that moves sessions by the writers `W` and publishes nothing. -/
structure TxStep (W : Writer → Prop) (w w' : World) : Prop where
  tx : LifecycleTx W w.db w'.db
  streams : w'.streams = w.streams
  log : ∀ key, turnLog key w'.log = turnLog key w.log

namespace TxStep

variable {w w' : World} {W W' : Writer → Prop}

theorem of_db (hdb : w'.db = w.db) (hstreams : w'.streams = w.streams)
    (hlog : ∀ key, turnLog key w'.log = turnLog key w.log) : TxStep W w w' :=
  ⟨hdb ▸ .refl W w.db, hstreams, hlog⟩

theorem refl (w : World) : TxStep W w w :=
  .of_db rfl rfl fun _ ↦ rfl

theorem of_tx (h : LifecycleTx W w.db w'.db) (hW : ∀ x, W x → W' x)
    (hstreams : w'.streams = w.streams)
    (hlog : ∀ key, turnLog key w'.log = turnLog key w.log) : TxStep W' w w' :=
  ⟨h.mono hW, hstreams, hlog⟩

theorem setDb {db : Database} (h : LifecycleTx W w.db db) (hW : ∀ x, W x → W' x) :
    TxStep W' w (w.setDb db) :=
  of_tx h hW rfl fun _ ↦ rfl

/-- A transaction after which the process drops its locks. -/
theorem release (h : TxStep W w w') (pid : ℕ) : TxStep W w (w'.release pid) :=
  ⟨h.tx, h.streams, h.log⟩

theorem quiet (h : TxStep W w w') : Quiet W w w' :=
  .of_tx h.tx (fun _ hx ↦ hx) h.streams h.log

end TxStep

theorem outbox_mapRows_envelope {db : Database} {g : ℕ → OutboxRow → OutboxRow}
    (hg : ∀ id row, (g id row).envelope = row.envelope) (id : ℕ) (row' : OutboxRow)
    (h : (db.outbox.mapRows g).get? id = some row') :
    ∃ row, db.outbox.get? id = some row ∧ row'.envelope = row.envelope := by
  change (db.outbox.toKeyedTable.mapRows g).get? id = some row' at h
  rw [KeyedTable.get?_mapRows, Option.map_eq_some_iff] at h
  obtain ⟨row, hrow, rfl⟩ := h
  exact ⟨row, hrow, hg id row⟩

/-! ## The environment -/

theorem commit_eq_some {w w' : World} {db : Option Database} (h : w.commit db = some w') :
    ∃ db', db = some db' ∧ w' = w.setDb db' := by
  obtain ⟨db', hdb, rfl⟩ := Option.map_eq_some_iff.mp h
  exact ⟨db', hdb, rfl⟩

theorem retryOutbox_quiet (w : World) (id : ℕ) : Quiet Ordinary w (w.setDb (retryOutbox id w.db)) :=
  .of_outbox (fun _ ↦ rfl) rfl rfl
    (fun id' row' h ↦ outbox_mapRows_envelope (fun _ _ ↦ by split <;> rfl) id' row' h)
    rfl rfl

theorem readNew_quiet (w : World) (key : StreamKey) (count : ℕ) :
    Quiet Ordinary w (w.setStream key ((w.streams key).readNew () count)) :=
  .of_streams rfl (fun key' e he ↦ by
    rw [World.streams_setStream] at he
    split at he
    · rename_i hk
      exact hk ▸ he
    · exact he) fun _ ↦ rfl

theorem ack_quiet (w : World) (key : StreamKey) (id : ℕ) :
    Quiet Ordinary w (w.setStream key ((w.streams key).ack () id)) :=
  .of_streams rfl (fun key' e he ↦ by
    rw [World.streams_setStream] at he
    split at he
    · rename_i hk
      exact hk ▸ he
    · exact he) fun _ ↦ rfl

/-- The steps of the environment that are not one transaction on sessions. -/
inductive EnvStep (w : World) : EnvAction → World → Prop where
  | tx {e : EnvAction} {w' : World} (h : TxStep Ordinary w w') : EnvStep w e w'
  | input {key : Key} {sid : SessionId} {guildId : GuildId} {text : PyStr} {db : Database}
      (h : runInputSaga w.settings key sid guildId text w.db = .ok db) :
      EnvStep w (.input key sid guildId text) (w.setDb db)
  | readNew (stream : StreamKey) (count : ℕ) : EnvStep w (.readNew stream count)
      (w.setStream stream ((w.streams stream).readNew () count))
  | retire (stream : StreamKey) (entry : ℕ) (h : ∀ hostId, stream ≠ .inputJobs hostId) :
      EnvStep w (.retire stream entry) (w.setStream stream ((w.streams stream).ack () entry))
  | retryOutbox (id : ℕ) : EnvStep w (.retryOutbox id) (w.setDb (retryOutbox id w.db))

theorem envStep_cases {w w' : World} {e : EnvAction} (h : envStep w e = some w') :
    EnvStep w e w' := by
  have hframe : ∀ db : Database, (∀ sid, db.core? sid = w.db.core? sid) →
      db.inputTurns = w.db.inputTurns → db.nextSequence = w.db.nextSequence →
      db.outbox = w.db.outbox → LifecycleTx (fun _ ↦ False) w.db db := fun db hcore hturns hseq ho ↦
    (LifecycleTx.refl _ w.db).frame hcore hturns hseq ho
  cases e with
  | tick ms =>
      cases h
      exact .tx (.of_tx (hframe _ (fun _ ↦ rfl) rfl rfl rfl) (by simp) rfl fun _ ↦ rfl)
  | configure settings redactor =>
      cases h
      exact .tx (.of_db rfl rfl fun _ ↦ rfl)
  | input key sid guildId text =>
      obtain ⟨db, hdb, rfl⟩ := commit_eq_some h
      cases hr : runInputSaga w.settings key sid guildId text w.db with
      | error e => rw [hr] at hdb; cases hdb
      | ok db' =>
          rw [hr] at hdb
          cases hdb
          exact .input hr
  | stop sid guildId hostId =>
      obtain ⟨db, hdb, rfl⟩ := commit_eq_some h
      exact .tx (.setDb (runStopSaga_tx hdb) (by simp))
  | archive sid guildId =>
      obtain ⟨db, hdb, rfl⟩ := commit_eq_some h
      exact .tx (.setDb (runArchiveSaga_tx hdb) (by simp))
  | resume sid guildId hostId =>
      obtain ⟨db, hdb, rfl⟩ := commit_eq_some h
      exact .tx (.setDb (runResumeSaga_tx hdb) (by simp))
  | restart sid guildId =>
      simp only [envStep] at h
      split at h
      · rename_i db row hdb hrow
        cases h
        cases hr : runRestartSaga sid guildId w.db with
        | error e => rw [hr] at hdb; cases hdb
        | ok db' =>
            rw [hr] at hdb
            cases hdb
            exact .tx (.of_tx (runRestartSaga_tx hr) (by simp) rfl fun _ ↦ rfl)
      · cases h
  | bindThread sid threadId =>
      cases h
      exact .tx (.setDb (bindSessionThread_tx sid threadId w.db) (by simp))
  | stopJob hostId entry =>
      simp only [envStep] at h
      split at h
      · cases h
        exact .tx (.setDb (runStopJob_tx _ hostId w.db) (by simp))
      · cases h
  | heartbeat hostId =>
      cases h
      exact .tx (.setDb (hframe _ (fun _ ↦ rfl) rfl rfl rfl) (by simp))
  | markOffline hostId =>
      cases h
      exact .tx (.setDb (hframe _ (fun _ ↦ rfl) rfl rfl rfl) (by simp))
  | readNew stream count =>
      cases h
      exact .readNew stream count
  | retire stream entry =>
      cases stream with
      | inputJobs host => cases h
      | runnerJobs host => cases h; exact .retire _ entry fun _ he ↦ by cases he
      | discordOutbound => cases h; exact .retire _ entry fun _ he ↦ by cases he
  | retryOutbox id =>
      cases h
      exact .retryOutbox id

theorem envStep_quiet {w w' : World} {e : EnvAction} (h : envStep w e = some w')
    (he : ∀ key sid guildId text, e ≠ .input key sid guildId text) : Quiet Ordinary w w' := by
  cases envStep_cases h with
  | tx htx => exact htx.quiet
  | input => exact absurd rfl (he _ _ _ _)
  | readNew stream count => exact readNew_quiet w stream count
  | retire stream entry => exact ack_quiet w stream entry
  | retryOutbox id => exact retryOutbox_quiet w id

theorem spawnStep_world {pid : ℕ} {w w' : World} {n : SpawnAction} {p : Process}
    (h : spawnStep pid w n = some (w', p)) : w' = w :=
  (spawnStep_cases h).1

theorem system_spawn {pid : ℕ} {w w' : World} {n : SpawnAction} {p : Process}
    (h : system.spawn pid w n = some (w', p)) : w' = w :=
  spawnStep_world (show spawnStep pid w n = _ from h)

/-- What a step does to the shared world; a process that starts leaves it as it is. -/
theorem step_world {σ τ : SystemState} {a : SystemAction} (h : system.step σ a = some τ) :
    (∃ e, a = .env e ∧ envStep σ.shared e = some τ.shared) ∨
    (∃ n, a = .spawn n ∧ τ.shared = σ.shared) ∨
    ∃ pid b p q, a = .exec pid b ∧ σ.procs pid = some p ∧
      execStep pid σ.shared p b = some (τ.shared, q) := by
  obtain ⟨e, w, rfl, he, rfl⟩ | ⟨n, w, p, rfl, hn, rfl⟩ | ⟨pid, b, p, w, q, rfl, hp, hb, rfl⟩ :=
    ProcessPool.Machine.step_cases h
  · exact .inl ⟨e, rfl, he⟩
  · exact .inr (.inl ⟨n, rfl, system_spawn hn⟩)
  · exact .inr (.inr ⟨pid, b, p, q, rfl, hp, hb⟩)

/-! ## Processes -/

theorem release_quiet {W : Writer → Prop} (w : World) (pid : ℕ) : Quiet W w (w.release pid) :=
  .of_streams rfl (fun _ _ h ↦ h) fun _ ↦ rfl

theorem CreateSaga.step_tx {pid : ℕ} {w w' : World} {p : CreateSaga} {q : Option CreateSaga}
    {a : CreateSagaAction} (h : p.step pid w a = some (w', q)) : TxStep Ordinary w w' := by
  cases a with
  | acquire =>
      simp only [CreateSaga.step] at h
      split at h
      · split at h
        · cases h
          exact .of_db rfl rfl fun _ ↦ rfl
        · cases h
      · cases h
  | count =>
      simp only [CreateSaga.step] at h
      split at h
      · split at h
        · cases h
          exact (TxStep.refl w).release pid
        · cases h
          exact .refl w
      · cases h
  | beginSelect =>
      simp only [CreateSaga.step] at h
      split at h <;> cases h
      exact .refl w
  | commit predecessor =>
      simp only [CreateSaga.step] at h
      split at h
      · obtain ⟨db, hdb, he⟩ := Option.map_eq_some_iff.mp h
        cases predecessor with
        | none =>
            cases he
            exact (TxStep.setDb (createSession_tx hdb) (by simp)).release pid
        | some p' =>
            cases he
            exact .of_tx (createSession_tx hdb) (by simp) rfl fun _ ↦ rfl
      · cases h

theorem CreateJob.step_tx {w w' : World} {p : CreateJob} {q : Option CreateJob}
    {a : CreateJobAction} (h : p.step w a = some (w', q)) : TxStep KeepsTokens w w' := by
  cases a with
  | lockRow denied =>
      simp only [CreateJob.step] at h
      split at h
      · split at h
        · cases h
          exact .refl w
        · split at h <;> cases h <;> exact .refl w
      · cases h
  | getAdapter unknown minted =>
      simp only [CreateJob.step] at h
      split at h <;> cases h
      exact .refl w
  | release =>
      rw [(CreateJob.release_cases h).1]
      exact .refl w
  | fail =>
      simp only [CreateJob.step] at h
      split at h <;> cases h
      exact .setDb (failAndNotify_tx _ _ _ w.db) (by simp)
  | commit =>
      simp only [CreateJob.step] at h
      split at h
      · split at h
        · rename_i hdb
          cases h
          exact .of_tx (markRunning_tx hdb) (by simp) rfl fun _ ↦ rfl
        · cases h
          exact .refl w
      · cases h
  | register =>
      simp only [CreateJob.step] at h
      split at h <;> cases h
      exact .of_db rfl rfl fun _ ↦ rfl

theorem World.resumed_tx (w : World) (p : LifecyclePayload) (row : SessionRow)
    (token : Option Token) : TxStep KeepsTokens w (w.resumed p row token) := by
  unfold World.resumed
  split
  · exact .refl w
  · rename_i hdb
    exact .of_tx (markResumed_tx hdb) (by simp) rfl fun _ ↦ rfl

theorem ResumeJob.step_tx {pid : ℕ} {w w' : World} {p : ResumeJob} {q : Option ResumeJob}
    {a : ResumeJobAction} (h : p.step pid w a = some (w', q)) : TxStep KeepsTokens w w' := by
  cases a with
  | check =>
      simp only [ResumeJob.step] at h
      split at h
      · split at h
        · cases h
          exact .refl w
        · split at h <;> cases h <;> exact .refl w
      · cases h
  | lock collision =>
      simp only [ResumeJob.step] at h
      split at h
      · split at h <;> cases h
        · exact .refl w
        · exact .of_db rfl rfl fun _ ↦ rfl
      · cases h
  | read =>
      simp only [ResumeJob.step] at h
      split at h
      · split at h
        · cases h
          exact (TxStep.refl w).release pid
        · split at h <;> cases h
          · exact (TxStep.refl w).release pid
          · exact .refl w
      · cases h
  | revalidate denied =>
      simp only [ResumeJob.step] at h
      split at h <;> cases h
      exact .refl w
  | refuse =>
      simp only [ResumeJob.step] at h
      split at h <;> cases h
      exact (TxStep.setDb (refuseResume_tx _ _ w.db) (by simp)).release pid
  | mint minted =>
      simp only [ResumeJob.step] at h
      split at h <;> cases h
      exact .refl w
  | commit =>
      simp only [ResumeJob.step] at h
      split at h <;> cases h
      exact (w.resumed_tx _ _ _).release pid
  | commitFails applied =>
      simp only [ResumeJob.step] at h
      split at h <;> cases h
      split
      · exact w.resumed_tx _ _ _
      · exact .refl w
  | orphan =>
      simp only [ResumeJob.step] at h
      split at h <;> cases h
      exact (TxStep.setDb (orphanResume_tx _ _ w.db) (by simp)).release pid

theorem Recovery.step_tx {w w' : World} {rows : List (SessionId × SessionRow)}
    {verdict : RecoveryVerdict} {q : Option (List (SessionId × SessionRow))}
    (h : Recovery.step w rows verdict = some (w', q)) : TxStep Ordinary w w' := by
  cases rows with
  | nil => cases h; exact .refl w
  | cons e rows => cases h; exact .setDb (recoverRow_tx _ _ _ w.db) (by simp)

theorem DriftSweep.step_tx {w w' : World} {p : DriftSweep} {q : Option DriftSweep}
    {a : DriftAction} (h : p.step w a = some (w', q)) : TxStep Ordinary w w' := by
  cases a with
  | readFlagged =>
      simp only [DriftSweep.step] at h
      split at h <;> cases h
      exact .refl w
  | next =>
      simp only [DriftSweep.step] at h
      split at h
      · cases h
        exact .refl w
      · split at h
        · cases h
          exact .setDb (driftDeadLetter_tx _ w.db) (by simp)
        · split at h <;> cases h <;> exact .refl w
      · cases h
  | commit =>
      simp only [DriftSweep.step] at h
      split at h
      · cases h
        exact .setDb (bindSessionThread_tx _ _ w.db) (by simp)
      · cases h
        exact .setDb (driftClear_tx _ w.db) (by simp)
      · cases h
        exact .setDb (driftBump_tx _ w.db) (by simp)
      · cases h
  | skip =>
      simp only [DriftSweep.step] at h
      split at h <;> cases h <;> exact .refl w

theorem TrimCall.step_quiet {w w' : World} {p : TrimCall} {q : Option TrimCall}
    {a : TrimAction} (h : p.step w a = some (w', q)) : Quiet Ordinary w w' := by
  cases a with
  | readGroup floor =>
      simp only [TrimCall.step] at h
      split at h <;> cases h
      exact .refl w
  | readPending =>
      simp only [TrimCall.step] at h
      split at h <;> cases h
      exact .refl w
  | trim =>
      simp only [TrimCall.step] at h
      split at h <;> cases h
      split
      · exact .refl w
      · refine .of_streams rfl (fun key e he ↦ ?_) fun _ ↦ rfl
        rw [World.streams_setStream] at he
        split at he
        · rename_i hk
          exact hk ▸ List.mem_of_mem_filter he
        · exact he

theorem replyStep_tx {pid : ℕ} {w w' : World} {hostId : HostId} {p : ReplyRequest}
    {a : ReplyAction} {q : Option Process} (h : replyStep pid w hostId p a = some (w', q)) :
    TxStep Ordinary w w' := by
  obtain ⟨⟨s, next⟩, -, he⟩ := Option.map_eq_some_iff.mp h
  cases he
  refine .of_db rfl rfl fun key ↦ ?_
  rw [turnLog_append]
  unfold ReplyRequest.events
  split
  · split <;> rfl
  · rfl
  · rfl

/-- The rows a relay still has to publish carry jobs of accepted turns. -/
def RelayBatch.Ok (p : RelayBatch) (db : Database) : Prop :=
  ∀ id row job, (id, row) ∈ p.rows → row.envelope = .sendInput job → ∃ v, AcceptedJob db job v

theorem RelayBatch.step_quiet {w w' : World} {p : RelayBatch} {q : Option RelayBatch}
    {a : RelayAction} (hp : p.Ok w.db) (h : p.step w a = some (w', q)) : Quiet Ordinary w w' := by
  cases a with
  | xadd =>
      simp only [RelayBatch.step] at h
      split at h
      · cases h
      · rename_i id row rest hrows
        cases h
        refine ⟨fun _ ↦ .same _, rfl, rfl, fun _ ↦ rfl, fun job hjob ↦ ?_⟩
        rcases hjob with hout | ⟨key, id', hmem⟩
        · exact .inl (.inl hout)
        · rw [World.streams_setStream] at hmem
          split at hmem
          · rename_i hk
            rcases List.mem_append.mp hmem with hold | hnew
            · exact .inl (.inr ⟨row.streamKey, id', hold⟩)
            · refine .inr (hp id row job (hrows ▸ List.mem_cons_self) ?_)
              exact (congrArg Prod.snd (List.mem_singleton.mp hnew)).symm
          · exact .inl (.inr ⟨key, id', hmem⟩)
  | xaddRaises =>
      simp only [RelayBatch.step] at h
      split at h <;> cases h
      exact .refl w
  | redisUnavailable => cases h; exact .refl w
  | commit =>
      simp only [RelayBatch.step] at h
      split at h
      · cases h
        refine .of_outbox (fun _ ↦ rfl) rfl rfl (fun id row' hget ↦ ?_) rfl rfl
        refine outbox_mapRows_envelope (fun _ _ ↦ ?_) id row' hget
        split
        · rfl
        · split <;> rfl
      · cases h

theorem sweepOutbox_quiet (w : World) (settings : Settings) (batch : List ℕ)
    (snapshot : Database) : Quiet Ordinary w (w.setDb (sweepOutbox settings batch snapshot w.db)) := by
  refine .of_outbox (fun _ ↦ rfl) rfl rfl (fun id row' hget ↦ ⟨row', ?_, rfl⟩) rfl rfl
  change (w.db.outbox.toKeyedTable.filterRows _).get? id = some row' at hget
  rw [KeyedTable.get?_filterRows, Option.filter_eq_some_iff] at hget
  exact hget.1

theorem Sweep.step_tx (w : World) (p : Sweep) (h : ∀ batch, p.kind ≠ .turnResults batch)
    (h' : ∀ batch, p.kind ≠ .outbox batch) : TxStep Ordinary w (p.step w) := by
  unfold Sweep.step
  cases hk : p.kind with
  | creatingWatchdog => exact .setDb (sweepCreatingWatchdog_tx _ _ _ _) (by simp)
  | resumingWatchdog => exact .setDb (sweepResumingWatchdog_tx _ _ _) (by simp)
  | stoppingWatchdog => exact .setDb (sweepStoppingWatchdog_tx _ _ _) (by simp)
  | idleTimeout => exact .setDb (sweepIdleTimeout_tx _ _ _) (by simp)
  | archiveTimeout => exact .setDb (sweepArchiveTimeout_tx _ _ _) (by simp)
  | stopTimeout => exact .setDb (sweepStopTimeout_tx _ _ _) (by simp)
  | heartbeatOrphans => exact .setDb (sweepRunnerHeartbeatOrphans_tx _ _ _) (by simp)
  | events count => exact .setDb (sweepEvents_tx _ _ _ _) (by simp)
  | outbox batch => exact absurd hk (h' batch)
  | turnResults batch => exact absurd hk (h batch)

theorem Sweep.step_quiet (w : World) (p : Sweep) (h : ∀ batch, p.kind ≠ .turnResults batch) :
    Quiet Ordinary w (p.step w) := by
  by_cases hout : ∃ batch, p.kind = .outbox batch
  · obtain ⟨batch, hk⟩ := hout
    unfold Sweep.step
    rw [hk]
    exact sweepOutbox_quiet w _ batch _
  · exact (p.step_tx w h fun batch hk ↦ hout ⟨batch, hk⟩).quiet

end Discode
