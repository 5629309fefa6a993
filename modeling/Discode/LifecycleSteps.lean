import Discode.LifecycleTx
import Discode.RunnerJobs

/-!
# Every transaction is a move of the lifecycle

One lemma per transaction of the sagas, the runner jobs and the sweeps: which writers of
the abstract machine it implements.
-/

set_option autoImplicit false

namespace Discode

variable {db db' : Database}

/-! ## Sagas -/

theorem runStopSaga_tx {sid : SessionId} {guildId : GuildId} {hostId : Option HostId}
    (h : runStopSaga sid guildId hostId db = some db') : LifecycleTx (· = .stop) db db' := by
  unfold runStopSaga at h
  split at h
  · cases h
  · rename_i sess hsess
    split at h
    · cases h
    · rename_i hguard
      obtain ⟨-, hs⟩ := not_or.mp hguard
      cases h
      refine .writeOutbox (.updateSession _ _ fun r hr ↦ ?_) _ _ rfl
      cases hsess.symm.trans hr
      exact .move .stop _ rfl (not_not.mp hs)

theorem runArchiveSaga_tx {sid : SessionId} {guildId : GuildId}
    (h : runArchiveSaga sid guildId db = some db') : LifecycleTx (· = .archive) db db' := by
  unfold runArchiveSaga at h
  split at h
  · cases h
  · rename_i sess hsess
    split at h
    · cases h
    · rename_i hguard
      obtain ⟨-, hs⟩ := not_or.mp hguard
      have hmove : LifecycleTx (· = .archive) db (db.updateSession sid fun r ↦
          { r with
            status := .archived, lifecycleChangedAt := db.now
            lifecycleVersion := r.lifecycleVersion + 1 }) :=
        .updateSession _ _ fun r hr ↦ by
          cases hsess.symm.trans hr
          exact .move .archive _ rfl (not_not.mp hs)
      dsimp only at h
      split at h
      · cases h
        exact hmove.writeOutbox _ _ rfl
      · cases h
        exact (hmove.writeOutbox _ _ rfl).writeOutbox _ _ rfl

theorem runResumeSaga_tx {sid : SessionId} {guildId : GuildId} {hostId : Option HostId}
    (h : runResumeSaga sid guildId hostId db = some db') : LifecycleTx (· = .resume) db db' := by
  unfold runResumeSaga at h
  split at h
  · cases h
  · rename_i sess hsess
    split at h
    · cases h
    · rename_i hguard
      obtain ⟨-, hs⟩ := not_or.mp hguard
      cases h
      refine .writeOutbox (.updateSession _ _ fun r hr ↦ ?_) _ _ rfl
      cases hsess.symm.trans hr
      exact .move .resume _ rfl (List.mem_singleton.mpr (not_not.mp hs))

theorem runRestartSaga_tx {sid : SessionId} {guildId : GuildId}
    (h : runRestartSaga sid guildId db = .ok db') : LifecycleTx (· = .restart) db db' := by
  unfold runRestartSaga at h
  split at h
  · cases h
  · rename_i sess hsess
    split at h
    · cases h
    · split at h
      · cases h
      · rename_i hs
        cases h
        refine .writeOutbox (.updateSession _ _ fun r hr ↦ ?_) _ _ rfl
        cases hsess.symm.trans hr
        exact .move .restart _ rfl (not_not.mp hs)

theorem bindSessionThread_tx (sid : SessionId) (threadId : ThreadId) (db : Database) :
    LifecycleTx (fun _ ↦ False) db (bindSessionThread sid threadId db).1 := by
  unfold bindSessionThread
  split
  · exact .refl _ db
  · split
    · exact .refl _ db
    · split
      · exact .refl _ db
      · split
        · exact .refl _ db
        · have hbound : LifecycleTx (fun _ ↦ False) db
              (db.updateSession sid fun r ↦ { r with threadId := some threadId }) :=
            (LifecycleTx.refl _ db).updateSession_quiet sid fun _ ↦ rfl
          refine hbound.mapOutbox _ (fun _ row ↦ ?_) fun _ row ↦ ?_
          · split
            · rename_i p he hp
              by_cases hsid : p.sessionId = sid
              · right
                simp [hsid, he, hp, Envelope.isInputJob]
              · left
                simp [hsid]
            · exact .inl rfl
          · split
            · rename_i p he hp
              split
              · exact .inr ⟨p, _, he, rfl⟩
              · exact .inl rfl
            · exact .inl rfl

theorem core?_supersede (db : Database) (predecessor : Option SessionId) (heir sid : SessionId) :
    (db.supersede predecessor heir).core? sid = db.core? sid := by
  cases predecessor with
  | none => rfl
  | some p =>
      rw [Database.supersede, Database.core?, Database.session?_updateSession, Database.core?]
      split
      · rw [Option.map_map]
        rfl
      · rfl

theorem createSession_tx {req : CreateRequest} {snapshot : Database}
    {predecessor : Option SessionId} (h : createSession req snapshot predecessor db = some db') :
    LifecycleTx (fun _ ↦ False) db db' := by
  unfold createSession at h
  split at h
  · cases h
  · split at h
    · cases h
    · obtain ⟨sessions, hins, rfl⟩ := Option.map_eq_some_iff.mp h
      have hframe : ∀ db₀ : Database, (db₀.supersede predecessor req.sessionId).outbox = db₀.outbox ∧
          (db₀.supersede predecessor req.sessionId).inputTurns = db₀.inputTurns ∧
          (db₀.supersede predecessor req.sessionId).nextSequence = db₀.nextSequence := fun db₀ ↦ by
        cases predecessor <;> exact ⟨rfl, rfl, rfl⟩
      obtain ⟨hout, hturns, hseq⟩ := hframe db
      refine LifecycleTx.writeOutbox ?_ _ _ rfl
      refine ⟨fun sid ↦ ?_, hturns, hseq, fun id row _ ↦ ?_, .of_eq hout, .of_eq hout⟩
      · have hget := KeyedTable.get?_insert? hins sid
        by_cases hsid : sid = req.sessionId
        · rw [if_pos hsid] at hget
          have hnone : db.core? sid = none := by
            rw [← core?_supersede db predecessor req.sessionId, Database.core?, Database.session?,
              hsid, (KeyedTable.insert?_eq_some hins).1]
            rfl
          rw [hnone, Database.core?, Database.session?, hget]
          exact .created _ rfl rfl rfl rfl
        · rw [if_neg hsid] at hget
          rw [← core?_supersede db predecessor req.sessionId, Database.core?, Database.core?,
            Database.session?, Database.session?, hget]
          exact .same _
      · rw [hout]

/-! ## Runner jobs -/

theorem failAndNotify_tx (p : CreateJobPayload) (reason : StatusReason) (rows : List SessionId)
    (db : Database) : LifecycleTx (· = .failCreation) db (failAndNotify p reason rows db) := by
  unfold failAndNotify
  split
  · exact .refl _ db
  · rename_i row hrow
    split
    · exact .refl _ db
    · rename_i hs
      refine ((LifecycleTx.updateSession _ _ fun r hr ↦ ?_).releaseSuperseded _ _).writeOutbox
        _ _ rfl
      cases hrow.symm.trans hr
      exact .move .failCreation _ rfl (List.mem_singleton.mpr (not_not.mp hs))

theorem markRunning_tx {p : CreateJobPayload} {hostId : HostId} {token : Option Token}
    (h : markRunning p hostId token db = some db') :
    LifecycleTx (· = .markRunning hostId token) db db' := by
  unfold markRunning at h
  split at h
  · cases h
  · rename_i row hrow
    split at h
    · cases h
    · rename_i hs
      cases h
      refine (LifecycleTx.updateSession _ _ fun r hr ↦ ?_).writeOutbox _ _ rfl
      cases hrow.symm.trans hr
      exact .move (.markRunning hostId token) _ rfl (List.mem_singleton.mpr (not_not.mp hs))

theorem runStopJob_tx (p : LifecyclePayload) (hostId : HostId) (db : Database) :
    LifecycleTx (· = .confirmStop) db (runStopJob p hostId db) := by
  unfold runStopJob
  split
  · exact .refl _ db
  · rename_i row hrow
    split
    · exact .refl _ db
    · split
      · exact .refl _ db
      · rename_i hs
        refine .updateSession _ _ fun r hr ↦ ?_
        cases hrow.symm.trans hr
        exact .move .confirmStop _ rfl (List.mem_singleton.mpr (not_not.mp hs))

theorem resumingRow?_eq_some {sid : SessionId} {version : ℕ} {r : SessionRow} :
    resumingRow? db sid version = some r ↔
      db.session? sid = some r ∧ r.lifecycleVersion = version ∧ r.status = .resuming := by
  simp [resumingRow?, Option.filter_eq_some_iff]

theorem refuseResume_tx (p : LifecyclePayload) (row : SessionRow) (db : Database) :
    LifecycleTx (· = .refuseResume) db (refuseResume p row db) := by
  unfold refuseResume
  split
  · exact .refl _ db
  · rename_i row' hrow'
    obtain ⟨hget, -, hs⟩ := resumingRow?_eq_some.mp hrow'
    have hfailed : LifecycleTx (· = .refuseResume) db (db.updateSession p.sessionId fun r ↦
        { r with status := .failed, statusReason := some .cwdInvalid }) :=
      .updateSession _ _ fun r hr ↦ by
        cases hget.symm.trans hr
        exact .move .refuseResume _ rfl (List.mem_singleton.mpr hs)
    dsimp only
    split
    · exact hfailed
    · exact hfailed.writeOutbox _ _ rfl

theorem markResumed_tx {p : LifecyclePayload} {row : SessionRow} {token : Option Token}
    (h : markResumed p row token db = some db') : LifecycleTx (· = .resumed token) db db' := by
  obtain ⟨row', hrow', rfl⟩ := Option.map_eq_some_iff.mp h
  obtain ⟨hget, -, hs⟩ := resumingRow?_eq_some.mp hrow'
  refine .updateSession _ _ fun r hr ↦ ?_
  cases hget.symm.trans hr
  exact .move (.resumed token) _ rfl (List.mem_singleton.mpr hs)

theorem orphanResume_tx (p : LifecyclePayload) (row : SessionRow) (db : Database) :
    LifecycleTx (· = .orphanResume) db (orphanResume p row db) := by
  unfold orphanResume
  refine LifecycleTx.writeOutbox ?_ _ _ rfl
  split
  · exact .refl _ db
  · rename_i row' hrow'
    obtain ⟨hget, -, hs⟩ := resumingRow?_eq_some.mp hrow'
    refine .updateSession _ _ fun r hr ↦ ?_
    cases hget.symm.trans hr
    exact .move .orphanResume _ rfl (List.mem_singleton.mpr hs)

theorem recoverRow_tx (sid : SessionId) (row : SessionRow) (verdict : RecoveryVerdict)
    (db : Database) :
    LifecycleTx (fun w ↦ w = .failRecovery ∨ w = .orphanRecovery) db
      (recoverRow sid row verdict db) := by
  cases verdict with
  | recovered => exact .refl _ db
  | denied =>
      refine .updateSession _ _ fun r _ ↦ ?_
      split
      · rename_i hr
        exact .move .failRecovery _ (.inl rfl) hr.2
      · exact .same _
  | raised =>
      refine .updateSession _ _ fun r _ ↦ ?_
      split
      · rename_i hr
        exact .move .orphanRecovery _ (.inr rfl) hr.2
      · exact .same _

/-! ## Sweeps -/

theorem stuckCreating_status {settings : Settings} {snapshot : Database} {sid : SessionId}
    {r : SessionRow} (h : stuckCreating settings snapshot sid r = true) : r.status = .creating :=
  (of_decide_eq_true h).1

theorem sweepCreatingWatchdog_tx (settings : Settings) (snapshot : Database)
    (released : SessionId → List SessionId) (db : Database) :
    LifecycleTx (· = .failCreation) db
      (sweepCreatingWatchdog settings snapshot released db) := by
  refine LifecycleTx.writeAll ?_ _ fun m hm ↦ ?_
  · refine LifecycleTx.foldl_releaseSuperseded ?_ released
    exact .updateDue .failCreation rfl
      (fun _ _ hr ↦ List.mem_singleton.mpr (stuckCreating_status hr)) fun _ ↦ rfl
  · obtain ⟨e, -, rfl⟩ := List.mem_map.mp hm
    rfl

theorem sweepResumingWatchdog_tx (settings : Settings) (snapshot db : Database) :
    LifecycleTx (· = .orphanResume) db (sweepResumingWatchdog settings snapshot db) := by
  refine LifecycleTx.writeAll ?_ _ fun m hm ↦ ?_
  · exact .updateDue .orphanResume rfl
      (fun _ r hr ↦ List.mem_singleton.mpr (of_decide_eq_true hr).1) fun _ ↦ rfl
  · obtain ⟨e, -, rfl⟩ := List.mem_map.mp hm
    rfl

theorem sweepIdleTimeout_tx (settings : Settings) (snapshot db : Database) :
    LifecycleTx (· = .idle) db (sweepIdleTimeout settings snapshot db) :=
  .updateDue .idle rfl (fun _ _ hr ↦ List.mem_singleton.mpr (of_decide_eq_true hr).1) fun _ ↦ rfl

theorem sweepArchiveTimeout_tx (settings : Settings) (snapshot db : Database) :
    LifecycleTx (· = .archiveIdle) db (sweepArchiveTimeout settings snapshot db) := by
  refine LifecycleTx.writeAll ?_ _ fun m hm ↦ ?_
  · exact .updateDue .archiveIdle rfl
      (fun _ r hr ↦ List.mem_singleton.mpr (of_decide_eq_true hr).1) fun _ ↦ rfl
  · obtain ⟨e, -, he⟩ := List.mem_flatMap.mp hm
    rcases List.mem_append.mp he with he | he
    · split at he
      · cases he
      · rw [List.mem_singleton.mp he]
        rfl
    · rw [List.mem_singleton.mp he]
      rfl

theorem sweepStopTimeout_tx (settings : Settings) (snapshot db : Database) :
    LifecycleTx (· = .stopOld) db (sweepStopTimeout settings snapshot db) := by
  refine LifecycleTx.writeAll ?_ _ fun m hm ↦ ?_
  · exact .updateDue .stopOld rfl (fun _ r hr ↦ (of_decide_eq_true hr).1) fun _ ↦ rfl
  · obtain ⟨e, -, he⟩ := List.mem_flatMap.mp hm
    split at he
    · cases he
    · rw [List.mem_singleton.mp he]
      rfl

theorem sweepStoppingWatchdog_tx (settings : Settings) (snapshot db : Database) :
    LifecycleTx (· = .stopUnconfirmed) db (sweepStoppingWatchdog settings snapshot db) :=
  .updateDue .stopUnconfirmed rfl
    (fun _ _ hr ↦ List.mem_singleton.mpr (of_decide_eq_true hr).1) fun _ ↦ rfl

theorem sweepRunnerHeartbeatOrphans_tx (settings : Settings) (snapshot db : Database) :
    LifecycleTx (· = .loseRunner) db (sweepRunnerHeartbeatOrphans settings snapshot db) := by
  have hfailed : LifecycleTx (· = .loseRunner) db (failLost settings snapshot db) :=
    .updateDue .loseRunner rfl
      (fun _ _ hr ↦ of_decide_eq_true (Bool.and_eq_true_iff.mp hr).1) fun _ ↦ rfl
  refine LifecycleTx.writeAll ?_ _ fun m hm ↦ ?_
  · exact hfailed.frame (fun _ ↦ rfl) rfl rfl rfl
  · obtain ⟨e, -, rfl⟩ := List.mem_map.mp hm
    rfl

theorem sweepEvents_tx (settings : Settings) (count : ℕ) (snapshot db : Database) :
    LifecycleTx (fun _ ↦ False) db (sweepEvents settings count snapshot db) :=
  (LifecycleTx.refl _ db).frame (fun _ ↦ rfl) rfl rfl rfl

/-! ## The drift sweep -/

theorem driftDeadLetter_tx (sid : SessionId) (db : Database) :
    LifecycleTx (fun _ ↦ False) db (driftDeadLetter sid db) :=
  (LifecycleTx.refl _ db).updateSession_quiet sid fun r ↦ by split <;> rfl

theorem driftClear_tx (sid : SessionId) (db : Database) :
    LifecycleTx (fun _ ↦ False) db (driftClear sid db) :=
  (LifecycleTx.refl _ db).updateSession_quiet sid fun r ↦ by split <;> rfl

theorem driftBump_tx (sid : SessionId) (db : Database) :
    LifecycleTx (fun _ ↦ False) db (driftBump sid db) :=
  (LifecycleTx.refl _ db).updateSession_quiet sid fun r ↦ by split <;> rfl

end Discode
