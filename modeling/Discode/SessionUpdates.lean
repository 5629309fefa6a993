import Discode.LedgerProof

/-!
# Transactions, row by row

Every transaction but the commit of a create saga is an `UPDATE` of session rows, a row at a
time, together with the outbox rows it inserts: one lemma per transaction states both.
-/

set_option autoImplicit false

namespace Discode

/-- The envelopes that a transaction inserts in the outbox. -/
def Database.written (db db' : Database) : List Envelope :=
  (db'.outbox.entries.filter fun e ↦ db.outbox.next ≤ e.1).map fun e ↦ e.2.envelope

abbrev SessionUpdate := SessionId → SessionRow → SessionRow

/-- The update of one session. -/
def SessionUpdate.only (sid : SessionId) (f : SessionRow → SessionRow) : SessionUpdate :=
  fun s r ↦ if s = sid then f r else r

/-- The update of the rows that a sweep finds due. -/
def SessionUpdate.whenDue (snapshot : Database) (p : SessionId → SessionRow → Bool)
    (f : SessionRow → SessionRow) : SessionUpdate :=
  fun s r ↦ if snapshot.due p s r then f r else r

/-- `release_superseded` on one row. -/
def SessionRow.released (failed : SessionId) (rows : List SessionId) (s : SessionId)
    (r : SessionRow) : SessionRow :=
  if s ∈ rows ∧ r.status = .archived ∧ r.statusReason = some (.superseded failed) then
    { r with statusReason := none } else r

theorem SessionRow.released_status (failed : SessionId) (rows : List SessionId) (s : SessionId)
    (r : SessionRow) : (r.released failed rows s).status = r.status := by
  unfold SessionRow.released
  split <;> rfl

/-- `release_superseded` for every session of a list. -/
def SessionRow.releasedAll (released : SessionId → List SessionId)
    (failed : List (SessionId × SessionRow)) (s : SessionId) (r : SessionRow) : SessionRow :=
  failed.foldl (fun r e ↦ r.released e.1 (released e.1) s) r

/-- Together the statements clear the reason of a row once. -/
theorem SessionRow.releasedAll_eq (released : SessionId → List SessionId)
    (failed : List (SessionId × SessionRow)) (s : SessionId) (r : SessionRow) :
    r.releasedAll released failed s =
      if ∃ e ∈ failed, s ∈ released e.1 ∧ r.status = .archived ∧
          r.statusReason = some (.superseded e.1) then
        { r with statusReason := none } else r := by
  induction failed generalizing r with
  | nil => rw [if_neg (by simp)]; rfl
  | cons e failed ih =>
      have hcons : r.releasedAll released (e :: failed) s =
          (r.released e.1 (released e.1) s).releasedAll released failed s := rfl
      rw [hcons, ih, SessionRow.released]
      by_cases hhead : s ∈ released e.1 ∧ r.status = .archived ∧
          r.statusReason = some (.superseded e.1)
      · rw [if_pos hhead, if_neg, if_pos ⟨e, List.mem_cons_self, hhead⟩]
        rintro ⟨_, -, -, -, hreason⟩
        cases hreason
      · rw [if_neg hhead]
        simp only [List.mem_cons, exists_eq_or_imp, hhead, false_or]

theorem SessionRow.releasedAll_status (released : SessionId → List SessionId)
    (failed : List (SessionId × SessionRow)) (s : SessionId) (r : SessionRow) :
    (r.releasedAll released failed s).status = r.status := by
  rw [SessionRow.releasedAll_eq]
  split <;> rfl

/-- A transaction that updates session rows by `f` and inserts the envelopes `es`. -/
structure Updates (f : SessionUpdate) (es : List Envelope) (db db' : Database) : Prop where
  rows : ∀ sid, db'.session? sid = (db.session? sid).map (f sid)
  next : db.outbox.next ≤ db'.outbox.next
  written : db.written db' = es

theorem Database.written_of_next_le {db db' : Database}
    (h : db'.outbox.next ≤ db.outbox.next) : db.written db' = [] := by
  have hnil : (db'.outbox.entries.filter fun e ↦ db.outbox.next ≤ e.1) = [] := by
    refine List.filter_eq_nil_iff.mpr fun e he hle ↦ ?_
    have hlt := db'.outbox.bound e he
    have hle := of_decide_eq_true hle
    omega
  rw [Database.written, hnil]
  rfl

theorem Database.written_writeOutbox {db db' : Database} (h : db.outbox.next ≤ db'.outbox.next)
    (producer : Producer) (streamKey : StreamKey) (e : Envelope) :
    db.written (db'.writeOutbox producer streamKey e) = db.written db' ++ [e] := by
  simp [Database.written, Database.writeOutbox, SerialTable.insert, OutboxRow.write, h]

namespace Updates

variable {f g : SessionUpdate} {es : List Envelope} {db db' : Database}

theorem get (h : Updates f es db db') {sid : SessionId} {r : SessionRow}
    (hr : db.session? sid = some r) : db'.session? sid = some (f sid r) := by
  rw [h.rows, hr]
  rfl

/-- Session rows change by one statement, and the outbox not at all. -/
theorem mapSessions (f : SessionUpdate) (db : Database) :
    Updates f [] db { db with sessions := db.sessions.mapRows f } :=
  ⟨fun _ ↦ KeyedTable.get?_mapRows _ _ _, le_rfl, Database.written_of_next_le le_rfl⟩

theorem updateSession (sid : SessionId) (f : SessionRow → SessionRow) (db : Database) :
    Updates (.only sid f) [] db (db.updateSession sid f) :=
  mapSessions _ db

theorem updateDue (snapshot : Database) (p : SessionId → SessionRow → Bool)
    (f : SessionRow → SessionRow) (db : Database) :
    Updates (.whenDue snapshot p f) [] db (snapshot.updateDue p f db) :=
  mapSessions _ db

theorem refl (db : Database) : Updates (fun _ r ↦ r) [] db db :=
  ⟨fun _ ↦ Option.map_id'.symm, le_rfl, Database.written_of_next_le le_rfl⟩

/-- A transaction on other tables, or on columns of the outbox. -/
theorem elsewhere (hs : db'.sessions = db.sessions) (hnext : db'.outbox.next = db.outbox.next) :
    Updates (fun _ r ↦ r) [] db db' where
  rows sid := by
    rw [Database.session?, hs, Option.map_id']
    rfl
  next := hnext.ge
  written := Database.written_of_next_le hnext.le

/-- A further statement that leaves the sessions and the counter of the outbox alone. -/
theorem frame (h : Updates f [] db db') {db'' : Database} (hs : db''.sessions = db'.sessions)
    (hnext : db''.outbox.next = db'.outbox.next) (hdb : db'.outbox.next = db.outbox.next) :
    Updates f [] db db'' where
  rows sid := by
    rw [Database.session?, hs]
    exact h.rows sid
  next := (hnext.trans hdb).ge
  written := Database.written_of_next_le (hnext.trans hdb).le

theorem writeOutbox (h : Updates f es db db') (producer : Producer) (streamKey : StreamKey)
    (e : Envelope) : Updates f (es ++ [e]) db (db'.writeOutbox producer streamKey e) where
  rows := h.rows
  next := h.next.trans (Nat.le_succ _)
  written := by rw [Database.written_writeOutbox h.next, h.written]

theorem writeAll (h : Updates f es db db') (producer : Producer)
    (messages : List (StreamKey × Envelope)) :
    Updates f (es ++ messages.map Prod.snd) db (db'.writeAll producer messages) := by
  induction messages generalizing db' es with
  | nil => simpa [Database.writeAll] using h
  | cons m messages ih =>
      have hrest := ih (h.writeOutbox producer m.1 m.2)
      rw [List.append_assoc] at hrest
      exact hrest

theorem releaseSuperseded (h : Updates f es db db') (failed : SessionId)
    (rows : List SessionId) :
    Updates (fun s r ↦ (f s r).released failed rows s) es db
      (db'.releaseSuperseded failed rows) where
  rows sid := by
    rw [Database.session?_releaseSuperseded, h.rows, Option.map_map]
    rfl
  next := h.next
  written := h.written

theorem foldl_releaseSuperseded (h : Updates f es db db')
    (released : SessionId → List SessionId) (failed : List (SessionId × SessionRow)) :
    Updates (fun s r ↦ (f s r).releasedAll released failed s) es db
      (failed.foldl (fun db e ↦ db.releaseSuperseded e.1 (released e.1)) db') := by
  induction failed generalizing db' f with
  | nil => exact h
  | cons e failed ih => exact ih (h.releaseSuperseded e.1 (released e.1))

end Updates

/-! ## The transactions -/

variable {db db' : Database}

theorem runInputSaga_updates {settings : Settings} {key : Key} {sid : SessionId}
    {guildId : GuildId} {text : PyStr}
    (h : runInputSaga settings key sid guildId text db = .ok db') :
    ∃ row job, db.session? sid = some row ∧ row.status.isLive = true ∧
      Updates (.only sid fun r ↦ { r with lastActivityAt := db.now, status := .running })
        [.sendInput job] db db' := by
  obtain ⟨row, threadId, hostId, hrow, hlive, -, -, haccept⟩ := runInputSaga_ok h
  obtain ⟨db₁, hins, rfl⟩ := Option.map_eq_some_iff.mp haccept
  obtain ⟨turns, -, rfl⟩ := Option.map_eq_some_iff.mp hins
  have htouched := Updates.updateSession sid
    (fun r ↦ { r with lastActivityAt := db.now, status := .running }) db
  refine ⟨row, _, hrow, hlive, Updates.writeOutbox (?_ : Updates _ [] db _) _ _ _⟩
  exact htouched.frame rfl rfl rfl

theorem runStopSaga_updates {sid : SessionId} {guildId : GuildId} {hostId : Option HostId}
    (h : runStopSaga sid guildId hostId db = some db') :
    ∃ sess, db.session? sid = some sess ∧
      sess.status ∈ [.creating, .resuming, .running, .idle] ∧
      Updates (.only sid fun r ↦
          { r with
            status := .stopping, lifecycleChangedAt := db.now
            lifecycleVersion := r.lifecycleVersion + 1 })
        [.stopSession ⟨sid, some guildId, none, some (sess.lifecycleVersion + 1)⟩] db db' := by
  unfold runStopSaga at h
  split at h
  · cases h
  · rename_i sess hsess
    split at h
    · cases h
    · rename_i hguard
      obtain ⟨-, hs⟩ := not_or.mp hguard
      cases h
      exact ⟨sess, hsess, not_not.mp hs, (Updates.updateSession sid _ db).writeOutbox _ _ _⟩

theorem runArchiveSaga_updates {sid : SessionId} {guildId : GuildId}
    (h : runArchiveSaga sid guildId db = some db') :
    ∃ sess es, db.session? sid = some sess ∧ sess.status ∈ [.running, .idle, .stopped] ∧
      (∀ e ∈ es, e = .stopSession ⟨sid, some guildId, none, some (sess.lifecycleVersion + 1)⟩ ∨
        ∃ threadId, sess.threadId = some threadId ∧
          e = .archiveThread sid guildId (some threadId)) ∧
      Updates (.only sid fun r ↦
          { r with
            status := .archived, lifecycleChangedAt := db.now
            lifecycleVersion := r.lifecycleVersion + 1 }) es db db' := by
  unfold runArchiveSaga at h
  split at h
  · cases h
  · rename_i sess hsess
    split at h
    · cases h
    · rename_i hguard
      obtain ⟨-, hs⟩ := not_or.mp hguard
      have hqueued := (Updates.updateSession sid (fun r ↦
        { r with
          status := .archived, lifecycleChangedAt := db.now
          lifecycleVersion := r.lifecycleVersion + 1 }) db).writeOutbox .bot
        (.runnerJobs sess.hostId)
        (.stopSession ⟨sid, some guildId, none, some (sess.lifecycleVersion + 1)⟩)
      dsimp only at h
      split at h
      · cases h
        exact ⟨sess, _, hsess, not_not.mp hs, fun e he ↦ .inl (List.mem_singleton.mp he), hqueued⟩
      · rename_i threadId hthread
        cases h
        refine ⟨sess, _, hsess, not_not.mp hs, fun e he ↦ ?_, hqueued.writeOutbox _ _ _⟩
        rcases List.mem_pair.mp he with rfl | rfl
        · exact .inl rfl
        · exact .inr ⟨threadId, hthread, rfl⟩

theorem runResumeSaga_updates {sid : SessionId} {guildId : GuildId} {hostId : Option HostId}
    (h : runResumeSaga sid guildId hostId db = some db') :
    ∃ sess, db.session? sid = some sess ∧ sess.status = .archived ∧
      Updates (.only sid fun r ↦
          { r with
            status := .resuming, lastActivityAt := db.now, lifecycleChangedAt := db.now
            lifecycleVersion := r.lifecycleVersion + 1 })
        [.resumeSession ⟨sid, some guildId, sess.threadId, some (sess.lifecycleVersion + 1)⟩]
        db db' := by
  unfold runResumeSaga at h
  split at h
  · cases h
  · rename_i sess hsess
    split at h
    · cases h
    · rename_i hguard
      obtain ⟨-, hs⟩ := not_or.mp hguard
      cases h
      exact ⟨sess, hsess, not_not.mp hs, (Updates.updateSession sid _ db).writeOutbox _ _ _⟩

theorem runRestartSaga_updates {sid : SessionId} {guildId : GuildId}
    (h : runRestartSaga sid guildId db = .ok db') :
    ∃ sess, db.session? sid = some sess ∧ sess.status ∈ [.running, .idle, .stopped] ∧
      Updates (.only sid fun r ↦
          { r with
            toolResumeToken := none, status := .resuming
            lastActivityAt := db.now, lifecycleChangedAt := db.now
            lifecycleVersion := r.lifecycleVersion + 1 })
        [.restartSession ⟨sid, some guildId, sess.threadId, some (sess.lifecycleVersion + 1)⟩]
        db db' := by
  unfold runRestartSaga at h
  split at h
  · cases h
  · rename_i sess hsess
    split at h
    · cases h
    · split at h
      · cases h
      · rename_i hs
        cases h
        exact ⟨sess, hsess, not_not.mp hs, (Updates.updateSession sid _ db).writeOutbox _ _ _⟩

/-- Either nothing changes, or an unbound session gets its thread. -/
theorem bindSessionThread_updates (sid : SessionId) (threadId : ThreadId) (db : Database) :
    (bindSessionThread sid threadId db).1 = db ∨
    ∃ row, db.session? sid = some row ∧ row.threadId = none ∧
      Updates (.only sid fun r ↦ { r with threadId := some threadId }) [] db
        (bindSessionThread sid threadId db).1 := by
  unfold bindSessionThread
  split
  · exact .inl rfl
  · rename_i row hrow
    split
    · exact .inl rfl
    · split
      · exact .inl rfl
      · rename_i hnone
        split
        · exact .inl rfl
        · refine .inr ⟨row, hrow, Option.not_isSome_iff_eq_none.mp hnone, ?_⟩
          exact (Updates.updateSession sid _ db).frame rfl rfl rfl

theorem runStopJob_updates (p : LifecyclePayload) (hostId : HostId) (db : Database) :
    runStopJob p hostId db = db ∨
    ∃ row, db.session? p.sessionId = some row ∧ row.status = .stopping ∧
      Updates (.only p.sessionId fun r ↦ { r with status := .stopped }) [] db
        (runStopJob p hostId db) := by
  unfold runStopJob
  split
  · exact .inl rfl
  · rename_i row hrow
    split
    · exact .inl rfl
    · split
      · exact .inl rfl
      · rename_i hs
        exact .inr ⟨row, hrow, not_not.mp hs, .updateSession _ _ db⟩

theorem failAndNotify_updates (p : CreateJobPayload) (reason : StatusReason)
    (rows : List SessionId) (db : Database) :
    (∀ row, db.session? p.sessionId = some row → row.status ≠ .creating) ∧
      failAndNotify p reason rows db = db ∨
    ∃ row, db.session? p.sessionId = some row ∧ row.status = .creating ∧
      Updates (fun s r ↦ (SessionUpdate.only p.sessionId (fun r ↦
          { r with status := .failed, statusReason := some reason }) s r).released
            p.sessionId rows s)
        [.systemNotice p.sessionId p.guildId p.threadId .sessionCreateFailed reason.text] db
        (failAndNotify p reason rows db) := by
  unfold failAndNotify
  split
  · rename_i hnone
    refine .inl ⟨fun row hrow ↦ ?_, rfl⟩
    rw [hnone] at hrow
    cases hrow
  · rename_i row hrow
    split
    · rename_i hs
      refine .inl ⟨fun row' hrow' ↦ ?_, rfl⟩
      cases hrow.symm.trans hrow'
      exact hs
    · rename_i hs
      refine .inr ⟨row, hrow, not_not.mp hs, ?_⟩
      exact ((Updates.updateSession _ _ db).releaseSuperseded _ _).writeOutbox _ _ _

theorem markRunning_updates {p : CreateJobPayload} {hostId : HostId} {token : Option Token}
    (h : markRunning p hostId token db = some db') :
    ∃ row, db.session? p.sessionId = some row ∧ row.status = .creating ∧
      Updates (.only p.sessionId fun r ↦
          { r with
            status := .running, hostId := some hostId, runningAt := some db.now
            toolResumeToken := token <|> r.toolResumeToken })
        [.systemNotice p.sessionId p.guildId p.threadId .sessionRunning
          "✅ Session ready. Send your messages in this thread."] db db' := by
  unfold markRunning at h
  split at h
  · cases h
  · rename_i row hrow
    split at h
    · cases h
    · rename_i hs
      cases h
      exact ⟨row, hrow, not_not.mp hs, (Updates.updateSession _ _ db).writeOutbox _ _ _⟩

/-- The notice goes to the thread that the job read. -/
theorem refuseResume_updates (p : LifecyclePayload) (row : SessionRow) (db : Database) :
    resumingRow? db p.sessionId row.lifecycleVersion = none ∧ refuseResume p row db = db ∨
    ∃ r es, resumingRow? db p.sessionId row.lifecycleVersion = some r ∧
      (row.threadId = none ∧ es = [] ∨ ∃ guildId threadId message, row.threadId = some threadId ∧
        es = [.terminalNotice p.sessionId guildId (some threadId) message true]) ∧
      Updates (.only p.sessionId fun r ↦
          { r with status := .failed, statusReason := some .cwdInvalid }) es db
        (refuseResume p row db) := by
  unfold refuseResume
  split
  · rename_i hnone
    exact .inl ⟨hnone, rfl⟩
  · rename_i r hr
    refine .inr ⟨r, ?_⟩
    dsimp only
    split
    · rename_i hthread
      exact ⟨[], hr, .inl ⟨hthread, rfl⟩, .updateSession _ _ db⟩
    · rename_i threadId hthread
      exact ⟨_, hr, .inr ⟨_, threadId, _, hthread, rfl⟩,
        (Updates.updateSession _ _ db).writeOutbox _ _ _⟩

theorem markResumed_updates {p : LifecyclePayload} {row : SessionRow} {token : Option Token}
    (h : markResumed p row token db = some db') :
    ∃ r, resumingRow? db p.sessionId row.lifecycleVersion = some r ∧
      Updates (.only p.sessionId fun r ↦
        { r with status := .running, lastActivityAt := db.now, toolResumeToken := token }) []
        db db' := by
  obtain ⟨r, hr, rfl⟩ := Option.map_eq_some_iff.mp h
  exact ⟨r, hr, .updateSession _ _ db⟩

theorem orphanResume_updates (p : LifecyclePayload) (row : SessionRow) (db : Database) :
    (resumingRow? db p.sessionId row.lifecycleVersion = none ∧
      Updates (fun _ r ↦ r) [.terminalNotice p.sessionId (p.guildId.getD row.guildId) row.threadId
        "Session resume failed." true] db (orphanResume p row db)) ∨
    ∃ r, resumingRow? db p.sessionId row.lifecycleVersion = some r ∧
      Updates (.only p.sessionId fun r ↦
          { r with status := .orphaned, statusReason := some .runnerLost })
        [.terminalNotice p.sessionId (p.guildId.getD row.guildId) row.threadId
          "Session resume failed." true] db (orphanResume p row db) := by
  unfold orphanResume
  split
  · rename_i hnone
    exact .inl ⟨hnone, (Updates.refl db).writeOutbox _ _ _⟩
  · rename_i r hr
    exact .inr ⟨r, hr, (Updates.updateSession _ _ db).writeOutbox _ _ _⟩

theorem recordResult_updates (p : InputJobPayload) (version : ℕ) (reply : PyStr)
    (token : Option Token) (db : Database) :
    Updates (.only p.sessionId fun r ↦
      if r.lifecycleVersion = version ∧ r.status.isLive then
        { r with toolResumeToken := token <|> r.toolResumeToken, lastActivityAt := db.now }
      else r) [] db (recordResult p version reply token db) :=
  (Updates.updateSession p.sessionId _ db).frame rfl rfl rfl

theorem admitTurn_updates {p : InputJobPayload} {version : ℕ}
    (h : admitTurn p version db = some db') :
    ∃ row, db.session? p.sessionId = some row ∧ row.lifecycleVersion = version ∧
      row.status.isLive = true ∧
      Updates (.only p.sessionId fun r ↦ { r with lastActivityAt := db.now, status := .running })
        [] db db' := by
  unfold admitTurn at h
  split at h
  · cases h
  · rename_i row hrow
    split at h
    · cases h
    · rename_i hguard
      obtain ⟨hv, hlive⟩ := not_or.mp hguard
      refine ⟨row, hrow, not_not.mp hv, by simpa using hlive, ?_⟩
      have htouched := Updates.updateSession p.sessionId
        (fun r ↦ { r with lastActivityAt := db.now, status := .running }) db
      dsimp only at h
      split at h
      · obtain ⟨turns, -, rfl⟩ := Option.map_eq_some_iff.mp h
        exact htouched.frame rfl rfl rfl
      · cases h
        exact htouched.frame rfl rfl rfl

theorem recoverRow_updates (sid : SessionId) (row : SessionRow) (verdict : RecoveryVerdict)
    (db : Database) :
    verdict = .recovered ∧ recoverRow sid row verdict db = db ∨
    ∃ status reason, (status = .failed ∨ status = .orphaned) ∧
      StatusReason.isSuperseded (some reason) = false ∧
      Updates (.only sid fun r ↦
        if r.lifecycleVersion = row.lifecycleVersion ∧
            r.status ∈ [.running, .idle, .resuming] then
          { r with status := status, statusReason := some reason } else r) [] db
        (recoverRow sid row verdict db) := by
  cases verdict with
  | recovered => exact .inl ⟨rfl, rfl⟩
  | denied => exact .inr ⟨.failed, .cwdInvalid, .inl rfl, rfl, .updateSession _ _ db⟩
  | raised => exact .inr ⟨.orphaned, .runnerLost, .inr rfl, rfl, .updateSession _ _ db⟩

/-! ## The sweeps -/

/-- A sweep that reports every row it moves. -/
theorem Updates.report {f : SessionUpdate} (h : Updates f [] db db') (producer : Producer)
    (rows : List (SessionId × SessionRow)) (notice : SessionId × SessionRow → Envelope) :
    Updates f (rows.map notice) db
      (db'.writeAll producer (rows.map fun e ↦ (.discordOutbound, notice e))) := by
  have hall := h.writeAll producer (rows.map fun e ↦ (StreamKey.discordOutbound, notice e))
  rwa [List.nil_append, List.map_map] at hall

theorem sweepCreatingWatchdog_updates (settings : Settings) (snapshot : Database)
    (released : SessionId → List SessionId) (db : Database) :
    Updates (fun s r ↦ (SessionUpdate.whenDue snapshot (stuckCreating settings snapshot) (fun r ↦
        { r with status := .failed, statusReason := some .creationTimeout }) s r).releasedAll
          released (snapshot.dueRows (stuckCreating settings snapshot) db) s)
      ((snapshot.dueRows (stuckCreating settings snapshot) db).map fun e ↦
        .systemNotice e.1 e.2.guildId e.2.threadId .sessionCreateFailed "creation_timeout") db
      (sweepCreatingWatchdog settings snapshot released db) :=
  ((Updates.updateDue snapshot _ _ db).foldl_releaseSuperseded released _).report _ _ _

theorem sweepResumingWatchdog_updates (settings : Settings) (snapshot db : Database) :
    ∃ p : SessionId → SessionRow → Bool, (∀ s r, p s r = true → r.status = .resuming) ∧
      Updates (.whenDue snapshot p
          fun r ↦ { r with status := .orphaned, statusReason := some .resumeStuck })
        ((snapshot.dueRows p db).map fun e ↦ .terminalNotice e.1 e.2.guildId e.2.threadId
          "Session resume timed out." true) db (sweepResumingWatchdog settings snapshot db) :=
  ⟨_, fun _ _ hr ↦ (of_decide_eq_true hr).1, (Updates.updateDue snapshot _ _ db).report _ _ _⟩

/-- The `WHERE` clause of `sweep_idle_timeout`. -/
def idleDue (settings : Settings) (snapshot : Database) (sid : SessionId) (r : SessionRow) : Bool :=
  r.status = .running ∧ snapshot.noPendingTurn sid r ∧
    r.lastActivityAt + settings.defaultIdleTimeoutMinutes * 60000 < snapshot.now

theorem sweepIdleTimeout_updates (settings : Settings) (snapshot db : Database) :
    Updates (.whenDue snapshot (idleDue settings snapshot)
      fun r ↦ { r with status := .idle, lifecycleChangedAt := snapshot.now }) [] db
      (sweepIdleTimeout settings snapshot db) :=
  .updateDue snapshot _ _ db

/-- The `WHERE` clause of `sweep_archive_timeout`. -/
def archiveDue (settings : Settings) (snapshot : Database) (sid : SessionId) (r : SessionRow) :
    Bool :=
  r.status = .idle ∧ snapshot.noPendingTurn sid r ∧
    r.lastActivityAt + settings.defaultArchiveTimeoutMinutes * 60000 < snapshot.now

/-- The `WHERE` clause of `sweep_stop_timeout`. -/
def stopDue (settings : Settings) (snapshot : Database) (sid : SessionId) (r : SessionRow) :
    Bool :=
  r.status ∈ [.running, .idle, .archived] ∧
    r.lastActivityAt + settings.defaultStopTimeoutHours * 3600000 < snapshot.now ∧
      snapshot.noPendingTurn sid r

theorem sweepArchiveTimeout_updates (settings : Settings) (snapshot db : Database) :
    ∃ es : List Envelope, (∀ e ∈ es, (∃ p, e = .stopSession p) ∨ ∃ sid guildId threadId,
        e = .archiveThread sid guildId threadId) ∧
      Updates (.whenDue snapshot (archiveDue settings snapshot) fun r ↦
          { r with
            status := .archived, lifecycleVersion := r.lifecycleVersion + 1
            lifecycleChangedAt := snapshot.now }) es db
        (sweepArchiveTimeout settings snapshot db) := by
  refine ⟨_, fun e he ↦ ?_,
    (Updates.updateDue snapshot (archiveDue settings snapshot) _ db).writeAll _ _⟩
  rw [List.nil_append] at he
  obtain ⟨m, hm, rfl⟩ := List.mem_map.mp he
  obtain ⟨row, -, hrow⟩ := List.mem_flatMap.mp hm
  rcases List.mem_append.mp hrow with hrow | hrow
  · split at hrow
    · cases hrow
    · rw [List.mem_singleton.mp hrow]
      exact .inl ⟨_, rfl⟩
  · rw [List.mem_singleton.mp hrow]
    exact .inr ⟨_, _, _, rfl⟩

theorem sweepStopTimeout_updates (settings : Settings) (snapshot db : Database) :
    ∃ es : List Envelope, (∀ e ∈ es, ∃ p, e = .stopSession p) ∧
      Updates (.whenDue snapshot (stopDue settings snapshot) fun r ↦
          { r with
            status := if r.hostId.isSome then .stopping else .stopped
            statusReason := some .idleArchiveTimeout
            lifecycleVersion := r.lifecycleVersion + 1, lifecycleChangedAt := snapshot.now }) es db
        (sweepStopTimeout settings snapshot db) := by
  refine ⟨_, fun e he ↦ ?_,
    (Updates.updateDue snapshot (stopDue settings snapshot) _ db).writeAll _ _⟩
  rw [List.nil_append] at he
  obtain ⟨m, hm, rfl⟩ := List.mem_map.mp he
  obtain ⟨row, -, hrow⟩ := List.mem_flatMap.mp hm
  split at hrow
  · cases hrow
  · rw [List.mem_singleton.mp hrow]
    exact ⟨_, rfl⟩

theorem sweepStoppingWatchdog_updates (settings : Settings) (snapshot db : Database) :
    ∃ p : SessionId → SessionRow → Bool, (∀ s r, p s r = true → r.status = .stopping) ∧
      Updates (.whenDue snapshot p fun r ↦
          { r with
            status := .stopped, statusReason := r.statusReason <|> some .stopUnconfirmed
            lifecycleVersion := r.lifecycleVersion + 1, lifecycleChangedAt := snapshot.now }) [] db
        (sweepStoppingWatchdog settings snapshot db) :=
  ⟨_, fun _ _ hr ↦ (of_decide_eq_true hr).1, .updateDue snapshot _ _ db⟩

theorem sweepRunnerHeartbeatOrphans_updates (settings : Settings) (snapshot db : Database) :
    ∃ p : SessionId → SessionRow → Bool,
      (∀ s r, p s r = true → r.status ∈ [.running, .idle, .resuming]) ∧
      Updates (.whenDue snapshot p
          fun r ↦ { r with status := .failed, statusReason := some .runnerLost })
        ((snapshot.dueRows p db).map fun e ↦ .terminalNotice e.1 e.2.guildId e.2.threadId
          "Runner host lost. Session terminated." true) db
        (sweepRunnerHeartbeatOrphans settings snapshot db) := by
  refine ⟨onLostHost settings snapshot,
    fun _ _ hr ↦ of_decide_eq_true (Bool.and_eq_true_iff.mp hr).1, .report ?_ _ _ _⟩
  exact (Updates.updateDue snapshot _ _ db).frame rfl rfl rfl

/-! ## The commit of a create saga -/

structure Creates (req : CreateRequest) (predecessor : Option SessionId) (db db' : Database) :
    Prop where
  fresh : db.session? req.sessionId = none
  rows : ∀ sid, db'.session? sid =
    if sid = req.sessionId then some (.create req db.now)
    else (db.session? sid).map fun r ↦
      if some sid = predecessor then
        { r with statusReason := some (.superseded req.sessionId) } else r
  predecessor : ∀ p, predecessor = some p → ∃ r, db.session? p = some r ∧ req.resumes r = true
  written : ∃ p, db.written db' = [.createSession p]

theorem createSession_creates {req : CreateRequest} {snapshot : Database}
    {predecessor : Option SessionId} (h : createSession req snapshot predecessor db = some db') :
    Creates req predecessor db db' := by
  unfold createSession at h
  split at h
  · cases h
  · rename_i hselects
    split at h
    · cases h
    · obtain ⟨sessions, hins, rfl⟩ := Option.map_eq_some_iff.mp h
      have htagged : ∀ sid, (db.supersede predecessor req.sessionId).session? sid =
          (db.session? sid).map fun r ↦ if some sid = predecessor then
            { r with statusReason := some (.superseded req.sessionId) } else r := by
        intro sid
        cases predecessor with
        | none => simp [Database.supersede]
        | some p =>
            rw [Database.supersede, Database.session?_updateSession]
            by_cases hsid : sid = p
            · simp [hsid]
            · simp [hsid]
      have hout : (db.supersede predecessor req.sessionId).outbox = db.outbox := by
        cases predecessor <;> rfl
      have hfresh : (db.supersede predecessor req.sessionId).session? req.sessionId = none :=
        (KeyedTable.insert?_eq_some hins).1
      refine ⟨?_, fun sid ↦ ?_, fun p hp ↦ ?_, ?_⟩
      · rw [htagged] at hfresh
        exact Option.map_eq_none_iff.mp hfresh
      · have hget := KeyedTable.get?_insert? hins sid
        change sessions.get? sid = _
        rw [hget]
        split
        · rfl
        · exact htagged sid
      · subst hp
        have hany : (req.selects snapshot db (some p)) = true := by simpa using hselects
        obtain ⟨e, hmem, he⟩ := List.any_eq_true.mp hany
        obtain ⟨rfl, -⟩ := of_decide_eq_true he
        obtain ⟨hget, hmatch⟩ := KeyedTable.mem_select_iff.mp hmem
        exact ⟨e.2, hget, (of_decide_eq_true hmatch).1⟩
      · let tagged : Database := { db.supersede predecessor req.sessionId with sessions := sessions }
        have hnext : db.outbox.next ≤ tagged.outbox.next := by rw [hout]
        have hwritten : db.written tagged = [] := Database.written_of_next_le (by rw [hout])
        exact ⟨_, (Database.written_writeOutbox hnext _ _ _).trans (by rw [hwritten]; rfl)⟩

end Discode
