import Discode.Commits

/-!
# Jobs in transit

Between the transaction that writes a job and its consumer, the job is a row of the outbox
or an entry of a stream.  The relays copy it, `bind_session_thread` may fill in a thread,
and nothing else changes it.
-/

set_option autoImplicit false

namespace Discode

def World.Transports (w : World) (e : Envelope) : Prop :=
  (∃ id row, w.db.outbox.get? id = some row ∧ row.envelope = e) ∨
    ∃ key id, (id, e) ∈ (w.streams key).entries

/-- The envelopes that a relay still has to publish. -/
def Process.batch : Process → List Envelope
  | relay b => b.rows.map fun e ↦ e.2.envelope
  | _ => []

/-- The step turns no job into another one and publishes only what is in `batch`. -/
structure Moves (batch : List Envelope) (w w' : World) : Prop where
  outbox : OutboxKeeps w.db w'.db
  streams : ∀ key id e, (id, e) ∈ (w'.streams key).entries →
    (id, e) ∈ (w.streams key).entries ∨ e ∈ batch

theorem mem_written {db db' : Database} {id : ℕ} {row : OutboxRow}
    (h : db'.outbox.get? id = some row) (hid : db.outbox.next ≤ id) :
    row.envelope ∈ db.written db' := by
  have hmem : (id, row) ∈ db'.outbox.entries := KeyedTable.mem_entries_iff.mpr h
  exact List.mem_map.mpr ⟨(id, row), List.mem_filter.mpr ⟨hmem, decide_eq_true hid⟩, rfl⟩

namespace Moves

variable {w w' : World} {batch : List Envelope}

theorem of_outbox (houtbox : w'.db.outbox = w.db.outbox) (hstreams : w'.streams = w.streams) :
    Moves batch w w' :=
  ⟨.of_eq houtbox, fun _ _ _ he ↦ .inl (hstreams ▸ he)⟩

theorem of_tx {W : Writer → Prop} (h : TxStep W w w') : Moves batch w w' :=
  ⟨h.tx.keeps, fun _ _ _ he ↦ .inl (h.streams ▸ he)⟩

/-- What is in transit was so before, up to its thread, was published or is new. -/
theorem transports (h : Moves batch w w') {e : Envelope} (he : w'.Transports e) :
    (∃ e₀, w.Transports e₀ ∧ e₀.SameJob e) ∨ e ∈ batch ∨ e ∈ w.db.written w'.db := by
  rcases he with ⟨id, row, hrow, rfl⟩ | ⟨key, id, hmem⟩
  · by_cases hid : id < w.db.outbox.next
    · obtain ⟨row₀, hrow₀, hsame⟩ := h.outbox id hid row hrow
      exact .inl ⟨_, .inl ⟨id, row₀, hrow₀, rfl⟩, hsame⟩
    · exact .inr (.inr (mem_written hrow (Nat.not_lt.mp hid)))
  · rcases h.streams key id e hmem with hold | hnew
    · exact .inl ⟨e, .inr ⟨key, id, hold⟩, .inl rfl⟩
    · exact .inr (.inl hnew)

end Moves

/-! ## The steps -/

theorem runInputSaga_keeps {settings : Settings} {key : Key} {sid : SessionId}
    {guildId : GuildId} {text : PyStr} {db db' : Database}
    (h : runInputSaga settings key sid guildId text db = .ok db') : OutboxKeeps db db' := by
  obtain ⟨row, threadId, hostId, -, -, -, -, haccept⟩ := runInputSaga_ok h
  obtain ⟨db₁, hins, rfl⟩ := Option.map_eq_some_iff.mp haccept
  obtain ⟨turns, -, rfl⟩ := Option.map_eq_some_iff.mp hins
  apply OutboxKeeps.writeOutbox
  · exact .of_eq rfl
  · exact le_rfl

theorem admitTurn_outbox {p : InputJobPayload} {version : ℕ} {db db' : Database}
    (h : admitTurn p version db = some db') : db'.outbox = db.outbox := by
  unfold admitTurn at h
  split at h
  · cases h
  · split at h
    · cases h
    · dsimp only at h
      split at h
      · obtain ⟨turns, -, rfl⟩ := Option.map_eq_some_iff.mp h
        rfl
      · cases h
        rfl

/-- Reading and acknowledging leave the entries of a stream alone. -/
theorem Moves.setStream {w : World} {batch : List Envelope} {key : StreamKey} {s : JobStream}
    (h : ∀ e ∈ s.entries, e ∈ (w.streams key).entries ∨ e.2 ∈ batch) :
    Moves batch w (w.setStream key s) := by
  refine ⟨.of_eq rfl, fun key' id e he ↦ ?_⟩
  rw [World.streams_setStream] at he
  split at he
  · rename_i hkey
    exact hkey ▸ h _ he
  · exact .inl he

theorem envStep_moves {w w' : World} {e : EnvAction} (h : envStep w e = some w') :
    Moves [] w w' := by
  cases envStep_cases h with
  | tx htx => exact .of_tx htx
  | input hsaga => exact ⟨runInputSaga_keeps hsaga, fun _ _ _ he ↦ .inl he⟩
  | readNew stream count => exact .setStream fun _ he ↦ .inl he
  | retire stream entry => exact .setStream fun _ he ↦ .inl he
  | retryOutbox id =>
      refine ⟨(OutboxKeeps.of_eq rfl).mapRows fun id' row ↦ .inl ?_, fun _ _ _ he ↦ .inl he⟩
      split <;> rfl

theorem RelayBatch.step_moves {w w' : World} {p : RelayBatch} {q : Option RelayBatch}
    {a : RelayAction} (h : p.step w a = some (w', q)) :
    Moves (Process.batch (.relay p)) w w' := by
  cases a with
  | xadd =>
      simp only [RelayBatch.step] at h
      split at h
      · cases h
      · rename_i id row rest hrows
        cases h
        refine .setStream fun e he ↦ ?_
        rcases List.mem_append.mp he with hold | hnew
        · exact .inl hold
        · refine .inr (List.mem_map.mpr ⟨(id, row), hrows ▸ List.mem_cons_self, ?_⟩)
          exact (congrArg Prod.snd (List.mem_singleton.mp hnew)).symm
  | xaddRaises =>
      simp only [RelayBatch.step] at h
      split at h <;> cases h
      exact .of_outbox rfl rfl
  | redisUnavailable => cases h; exact .of_outbox rfl rfl
  | commit =>
      simp only [RelayBatch.step] at h
      split at h <;> cases h
      refine ⟨(OutboxKeeps.of_eq rfl).mapRows fun id row ↦ .inl ?_, fun _ _ _ he ↦ .inl he⟩
      split
      · rfl
      · split <;> rfl

theorem Sweep.step_moves (w : World) (p : Sweep) : Moves [] w (p.step w) := by
  have hkeeps : OutboxKeeps w.db (p.step w).db := by
    by_cases hturns : ∃ batch, p.kind = .turnResults batch
    · obtain ⟨batch, hkind⟩ := hturns
      unfold Sweep.step
      rw [hkind]
      exact .of_eq rfl
    · by_cases hout : ∃ batch, p.kind = .outbox batch
      · obtain ⟨batch, hkind⟩ := hout
        unfold Sweep.step
        rw [hkind]
        intro id _ row hrow
        change (w.db.outbox.toKeyedTable.filterRows _).get? id = some row at hrow
        rw [KeyedTable.get?_filterRows, Option.filter_eq_some_iff] at hrow
        exact ⟨row, hrow.1, .inl rfl⟩
      · exact (p.step_tx w (not_exists.mp hturns) (not_exists.mp hout)).tx.keeps
  exact ⟨hkeeps, fun _ _ _ he ↦ .inl he⟩

theorem execStep_moves {pid : ℕ} {w w' : World} {p : Process} {a : ExecAction}
    {q : Option Process} (h : execStep pid w p a = some (w', q)) : Moves p.batch w w' := by
  cases execStep_cases h with
  | crash p => exact .of_outbox rfl rfl
  | createSaga hstep => exact .of_tx (CreateSaga.step_tx hstep)
  | createJob hstep => exact .of_tx (CreateJob.step_tx hstep)
  | resumeJob hstep => exact .of_tx (ResumeJob.step_tx hstep)
  | input hstep =>
      cases InputHandler.step_effect hstep with
      | persistIntent hstage hdb => exact .of_outbox (admitTurn_outbox hdb) rfl
      | acknowledge => exact .setStream fun _ he ↦ .inl he
      | _ => exact .of_outbox rfl rfl
  | recovery hstep => exact .of_tx (Recovery.step_tx hstep)
  | release => exact .of_outbox rfl rfl
  | sweep p => exact p.step_moves w
  | drift hstep => exact .of_tx (DriftSweep.step_tx hstep)
  | relay hstep => exact RelayBatch.step_moves hstep
  | trim hstep =>
      rename_i p a' q'
      cases a' with
      | readGroup floor =>
          simp only [TrimCall.step] at hstep
          split at hstep <;> cases hstep
          exact .of_outbox rfl rfl
      | readPending =>
          simp only [TrimCall.step] at hstep
          split at hstep <;> cases hstep
          exact .of_outbox rfl rfl
      | trim =>
          simp only [TrimCall.step] at hstep
          split at hstep <;> cases hstep
          split
          · exact .of_outbox rfl rfl
          · exact .setStream fun _ he ↦ .inl (List.mem_of_mem_filter he)
  | reply hstep => exact .of_tx (replyStep_tx hstep)

/-! ## New create jobs -/

/-- The create job that a create saga writes, with the token it hands over. -/
theorem createSession_written {req : CreateRequest} {snapshot db db' : Database}
    {predecessor : Option SessionId} (h : createSession req snapshot predecessor db = some db') :
    ∃ p, db.written db' = [.createSession p] ∧ p.sessionId = req.sessionId ∧
      p.resumeToken = req.resumeTokenToUse db predecessor := by
  unfold createSession at h
  split at h
  · cases h
  · split at h
    · cases h
    · obtain ⟨sessions, -, rfl⟩ := Option.map_eq_some_iff.mp h
      let tagged : Database := { db.supersede predecessor req.sessionId with sessions := sessions }
      have hout : tagged.outbox.next = db.outbox.next := by cases predecessor <;> rfl
      have hwritten : db.written tagged = [] := Database.written_of_next_le hout.le
      have hnew := Database.written_writeOutbox hout.ge .bot (.runnerJobs (some req.runnerHostId))
      rw [hwritten] at hnew
      exact ⟨_, hnew _, rfl, rfl⟩

theorem sweep_writes_no_creation (settings : Settings) (snapshot : Database)
    (released : SessionId → List SessionId) (db : Database) (kind : SweepKind)
    (p : CreateJobPayload) :
    .createSession p ∉ db.written (runSweep settings snapshot released db kind) := by
  cases kind with
  | creatingWatchdog =>
      have hupd := sweepCreatingWatchdog_updates settings snapshot released db
      simp [runSweep, hupd.written]
  | resumingWatchdog =>
      obtain ⟨q, hq, hupd⟩ := sweepResumingWatchdog_updates settings snapshot db
      simp [runSweep, hupd.written]
  | stoppingWatchdog =>
      obtain ⟨q, hq, hupd⟩ := sweepStoppingWatchdog_updates settings snapshot db
      simp [runSweep, hupd.written]
  | idleTimeout =>
      simp [runSweep, (sweepIdleTimeout_updates settings snapshot db).written]
  | archiveTimeout =>
      obtain ⟨es, hes, hupd⟩ := sweepArchiveTimeout_updates settings snapshot db
      rw [runSweep, hupd.written]
      intro hmem
      rcases hes _ hmem with ⟨job, he⟩ | ⟨sid, guildId, threadId, he⟩ <;> cases he
  | stopTimeout =>
      obtain ⟨es, hes, hupd⟩ := sweepStopTimeout_updates settings snapshot db
      rw [runSweep, hupd.written]
      intro hmem
      obtain ⟨job, he⟩ := hes _ hmem
      cases he
  | heartbeatOrphans =>
      obtain ⟨q, hq, hupd⟩ := sweepRunnerHeartbeatOrphans_updates settings snapshot db
      simp [runSweep, hupd.written]
  | events count =>
      have hnext : (sweepEvents settings count snapshot db).outbox.next ≤ db.outbox.next := le_rfl
      simp [runSweep, Database.written_of_next_le hnext]
  | outbox batch =>
      have hnext : (sweepOutbox settings batch snapshot db).outbox.next ≤ db.outbox.next := le_rfl
      simp [runSweep, Database.written_of_next_le hnext]
  | turnResults batch =>
      have hnext : (sweepTurnResults settings batch snapshot db).outbox.next ≤ db.outbox.next :=
        le_rfl
      simp [runSweep, Database.written_of_next_le hnext]

/-- Only a create saga writes create jobs. -/
theorem Commit.writes_no_creation {σ : SystemState} {db' : Database} {a : SystemAction}
    (h : Commit σ db' a)
    (ha : ∀ pid predecessor, a ≠ .exec pid (.createSaga (.commit predecessor)))
    (p : CreateJobPayload) : .createSession p ∉ σ.shared.db.written db' := by
  cases h with
  | create => exact absurd rfl (ha _ _)
  | touch _ _ _ hes h =>
      rw [h.written]
      intro hmem
      obtain ⟨job, he⟩ := hes _ hmem
      cases he
  | refuse _ _ _ hes h =>
      rw [h.written]
      intro hmem
      rcases hes with ⟨-, rfl⟩ | ⟨guildId, threadId, message, -, rfl⟩
      · cases hmem
      · cases List.mem_singleton.mp hmem
  | stop hsaga =>
      obtain ⟨sess, -, -, h⟩ := runStopSaga_updates hsaga
      simp [h.written]
  | archive hsaga =>
      obtain ⟨sess, es, -, -, hes, h⟩ := runArchiveSaga_updates hsaga
      rw [h.written]
      intro hmem
      rcases hes _ hmem with he | ⟨threadId, -, he⟩ <;> cases he
  | resume hsaga =>
      obtain ⟨sess, -, -, h⟩ := runResumeSaga_updates hsaga
      simp [h.written]
  | restart hsaga =>
      obtain ⟨sess, -, -, h⟩ := runRestartSaga_updates hsaga
      simp [h.written]
  | sweep _ _ hdb => exact hdb ▸ sweep_writes_no_creation _ _ _ _ _ p
  | elsewhere _ h => simp [h.written]
  | record _ h => simp [h.written]
  | bind _ _ _ h => simp [h.written]
  | repair _ _ _ h => simp [h.written]
  | confirmStop _ _ _ h => simp [h.written]
  | failCreation _ _ _ _ h => simp [h.written]
  | markRunning _ _ _ h => simp [h.written]
  | resumed _ _ h => simp [h.written]
  | orphan _ _ _ h => simp [h.written]
  | spurious _ _ _ h => simp [h.written]
  | recover _ _ _ _ h => simp [h.written]

end Discode
