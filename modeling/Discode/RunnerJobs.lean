import Discode.World

/-!
# The lifecycle jobs of the runner

The create, stop, resume and restart jobs and the recovery at start-up.  What a job learns
outside the modelled state comes with its action: whether the workspace is still an
allowed root, whether the tool exists and which token its adapter mints.
-/

set_option autoImplicit false

namespace Discode

/-! ## `run_create_job` -/

inductive CreateJobStage where
  | start
  | failing (reason : StatusReason)
  /-- In the transaction of `_fail_and_notify`, after `release_superseded`. -/
  | released (reason : StatusReason) (rows : List SessionId)
  | adapter
  | ready (token : Option Token)
  | committed
  deriving DecidableEq, Repr

structure CreateJob where
  payload : CreateJobPayload
  hostId : HostId
  stage : CreateJobStage
  deriving DecidableEq, Repr

inductive CreateJobAction where
  | lockRow (denied : Bool)
  | getAdapter (unknown : Bool) (minted : Option PyStr)
  | release
  | fail
  | commit
  /-- `session_store[session_id] = …`. -/
  | register
  deriving DecidableEq, Repr

/-- `_fail_and_notify`: nothing happens unless the session is still `creating`.  The rows
are those that `release_superseded` matched in this transaction. -/
def failAndNotify (p : CreateJobPayload) (reason : StatusReason) (rows : List SessionId)
    (db : Database) : Database :=
  match db.session? p.sessionId with
  | none => db
  | some row =>
      if row.status ≠ .creating then db
      else
        let failed := db.updateSession p.sessionId fun r ↦
          { r with status := .failed, statusReason := some reason }
        (failed.releaseSuperseded p.sessionId rows).writeOutbox .runner .discordOutbound
          (.systemNotice p.sessionId p.guildId p.threadId .sessionCreateFailed reason.text)

/-- Steps 6–8 of the create job; `none` when the session is no longer `creating`. -/
def markRunning (p : CreateJobPayload) (hostId : HostId) (token : Option Token)
    (db : Database) : Option Database :=
  match db.session? p.sessionId with
  | none => none
  | some row =>
      if row.status ≠ .creating then none
      else
        let running := db.updateSession p.sessionId fun r ↦
          { r with
            status := .running, hostId := some hostId, runningAt := some db.now
            toolResumeToken := token <|> r.toolResumeToken }
        some (running.writeOutbox .runner .discordOutbound
          (.systemNotice p.sessionId p.guildId p.threadId .sessionRunning
            "✅ Session ready. Send your messages in this thread."))

def CreateJob.step (w : World) (p : CreateJob) :
    CreateJobAction → Option (World × Option CreateJob)
  | .lockRow denied =>
      match p.stage with
      | .start =>
          match w.db.session? p.payload.sessionId with
          | none => some (w, none)
          | some row =>
              if row.status ≠ .creating then some (w, none)
              else some (w, some { p with
                stage := if denied then .failing .cwdInvalid else .adapter })
      | _ => none
  | .getAdapter unknown minted =>
      match p.stage with
      | .adapter => some (w, some { p with
          stage := if unknown then .failing .toolUnavailable else
            .ready (p.payload.resumeToken <|>
              minted.map fun value ↦ ⟨value, .minted p.payload.sessionId⟩) })
      | _ => none
  | .release =>
      match p.stage with
      | .failing reason =>
          match w.db.session? p.payload.sessionId with
          | none => some (w, none)
          | some row =>
              if row.status ≠ .creating then some (w, none)
              else some (w, some { p with
                stage := .released reason (w.db.supersededRows p.payload.sessionId) })
      | _ => none
  | .fail =>
      match p.stage with
      | .released reason rows =>
          some (w.setDb (failAndNotify p.payload reason rows w.db), none)
      | _ => none
  | .commit =>
      match p.stage with
      | .ready token =>
          match w.db.session? p.payload.sessionId, markRunning p.payload p.hostId token w.db with
          | some row, some db =>
              some ((w.setDb db).emit (.becameRunning p.payload.sessionId row.lifecycleVersion
                (token <|> row.toolResumeToken)), some { p with stage := .committed })
          | _, _ => some (w, none)
      | _ => none
  | .register =>
      match p.stage with
      | .committed => some ({ w with registered := p.payload.sessionId :: w.registered }, none)
      | _ => none

theorem CreateJob.release_cases {w w' : World} {p : CreateJob} {q : Option CreateJob}
    (h : p.step w .release = some (w', q)) :
    w' = w ∧ (q = none ∨ ∃ reason row, p.stage = .failing reason ∧
      w.db.session? p.payload.sessionId = some row ∧ row.status = .creating ∧
      q = some { p with stage := .released reason (w.db.supersededRows p.payload.sessionId) }) := by
  simp only [CreateJob.step] at h
  split at h
  · rename_i reason hstage
    split at h
    · cases h
      exact ⟨rfl, .inl rfl⟩
    · rename_i row hrow
      split at h <;> cases h
      · exact ⟨rfl, .inl rfl⟩
      · rename_i hs
        exact ⟨rfl, .inr ⟨reason, row, hstage, hrow, not_not.mp hs, rfl⟩⟩
  · cases h

/-! ## The stop job -/

/-- The stop branch of `dispatch_runner_job`. -/
def runStopJob (p : LifecyclePayload) (hostId : HostId) (db : Database) : Database :=
  match db.session? p.sessionId with
  | none => db
  | some row =>
      if row.hostId ≠ some hostId ∨ p.lifecycleVersion ≠ some row.lifecycleVersion then db
      else if row.status ≠ .stopping then db
      else db.updateSession p.sessionId fun r ↦ { r with status := .stopped }

/-! ## `run_resume_job` -/

inductive ResumeJobStage where
  /-- The restart branch of `dispatch_runner_job` before `run_resume_job`. -/
  | check
  | awaitLock
  | start
  | found (row : SessionRow)
  | refused (row : SessionRow)
  | mint (row : SessionRow)
  | commit (row : SessionRow) (token : Option Token)
  | lost (row : SessionRow)
  deriving DecidableEq, Repr

structure ResumeJob where
  payload : LifecyclePayload
  hostId : HostId
  stage : ResumeJobStage
  deriving DecidableEq, Repr

inductive ResumeJobAction where
  | check
  | lock (collision : Bool)
  | read
  | revalidate (denied : Bool)
  | refuse
  | mint (minted : Option PyStr)
  | commit
  /-- The commit raises, after it took effect or without effect. -/
  | commitFails (applied : Bool)
  | orphan
  deriving DecidableEq, Repr

/-- The row of a session at a given version that still resumes. -/
def resumingRow? (db : Database) (sid : SessionId) (version : ℕ) : Option SessionRow :=
  (db.session? sid).filter fun r ↦ r.lifecycleVersion = version ∧ r.status = .resuming

def refuseResume (p : LifecyclePayload) (row : SessionRow) (db : Database) : Database :=
  match resumingRow? db p.sessionId row.lifecycleVersion with
  | none => db
  | some _ =>
      let failed := db.updateSession p.sessionId fun r ↦
        { r with status := .failed, statusReason := some .cwdInvalid }
      match row.threadId with
      | none => failed
      | some threadId => failed.writeOutbox .runner .discordOutbound
          (.terminalNotice p.sessionId (p.guildId.getD row.guildId) (some threadId)
            ("Session resume failed: the workspace is no longer an " ++
              "allowed root on the runner.") true)

/-- `none` when the session no longer resumes at the version that was read. -/
def markResumed (p : LifecyclePayload) (row : SessionRow) (token : Option Token)
    (db : Database) : Option Database :=
  (resumingRow? db p.sessionId row.lifecycleVersion).map fun _ ↦
    db.updateSession p.sessionId fun r ↦
      { r with status := .running, lastActivityAt := db.now, toolResumeToken := token }

def orphanResume (p : LifecyclePayload) (row : SessionRow) (db : Database) : Database :=
  let orphaned := match resumingRow? db p.sessionId row.lifecycleVersion with
    | none => db
    | some _ => db.updateSession p.sessionId fun r ↦
        { r with status := .orphaned, statusReason := some .runnerLost }
  orphaned.writeOutbox .runner .discordOutbound
    (.terminalNotice p.sessionId (p.guildId.getD row.guildId) row.threadId
      "Session resume failed." true)

/-- The world after the resume job's last transaction took effect. -/
def World.resumed (w : World) (p : LifecyclePayload) (row : SessionRow) (token : Option Token) :
    World :=
  match markResumed p row token w.db with
  | none => w
  | some db => (w.setDb db).emit (.becameRunning p.sessionId row.lifecycleVersion token)

/-- One step of a resume or restart job.  When it ends it drops the lock it may hold. -/
def ResumeJob.step (pid : ℕ) (w : World) (p : ResumeJob) :
    ResumeJobAction → Option (World × Option ResumeJob)
  | .check =>
      match p.stage with
      | .check =>
          match w.db.session? p.payload.sessionId with
          | none => some (w, none)
          | some row =>
              if row.hostId ≠ some p.hostId ∨
                  p.payload.lifecycleVersion ≠ some row.lifecycleVersion then some (w, none)
              else some (w, some { p with stage := .awaitLock })
      | _ => none
  | .lock collision =>
      match p.stage with
      | .awaitLock =>
          if collision ∨ w.locks p.payload.sessionId ≠ none then some (w, none)
          else some (w.lock p.payload.sessionId pid, some { p with stage := .start })
      | _ => none
  | .read =>
      match p.stage with
      | .start =>
          match w.db.session? p.payload.sessionId with
          | none => some (w.release pid, none)
          | some row =>
              if row.hostId ≠ some p.hostId ∨ row.status ≠ .resuming ∨
                  p.payload.lifecycleVersion ≠ some row.lifecycleVersion then
                some (w.release pid, none)
              else some (w, some { p with stage := .found row })
      | _ => none
  | .revalidate denied =>
      match p.stage with
      | .found row => some (w, some { p with
          stage := if denied then .refused row
            else if row.toolResumeToken.isNone then .mint row
            else .commit row row.toolResumeToken })
      | _ => none
  | .refuse =>
      match p.stage with
      | .refused row => some ((w.setDb (refuseResume p.payload row w.db)).release pid, none)
      | _ => none
  | .mint minted =>
      match p.stage with
      | .mint row => some (w, some { p with
          stage := .commit row (minted.map fun value ↦ ⟨value, .minted p.payload.sessionId⟩) })
      | _ => none
  | .commit =>
      match p.stage with
      | .commit row token => some ((w.resumed p.payload row token).release pid, none)
      | _ => none
  | .commitFails applied =>
      match p.stage with
      | .commit row token =>
          some (if applied then w.resumed p.payload row token else w,
            some { p with stage := .lost row })
      | _ => none
  | .orphan =>
      match p.stage with
      | .lost row => some ((w.setDb (orphanResume p.payload row w.db)).release pid, none)
      | _ => none

/-! ## `recover_sessions` -/

inductive RecoveryVerdict where
  | recovered | denied | raised
  deriving DecidableEq, Repr

/-- The rows `recover_sessions` works through when the runner of `hostId` starts. -/
def recoveryRows (hostId : HostId) (db : Database) : List (SessionId × SessionRow) :=
  db.sessions.select fun _ r ↦ r.hostId = some hostId ∧ r.status ∈ [.running, .idle, .resuming]

/-- What recovery writes for one row it read. -/
def recoverRow (sid : SessionId) (row : SessionRow) (verdict : RecoveryVerdict)
    (db : Database) : Database :=
  match verdict with
  | .recovered => db
  | .denied => db.updateSession sid fun r ↦
      if r.lifecycleVersion = row.lifecycleVersion ∧ r.status ∈ [.running, .idle, .resuming] then
        { r with status := .failed, statusReason := some .cwdInvalid } else r
  | .raised => db.updateSession sid fun r ↦
      if r.lifecycleVersion = row.lifecycleVersion ∧ r.status ∈ [.running, .idle, .resuming] then
        { r with status := .orphaned, statusReason := some .runnerLost } else r

def Recovery.step (w : World) (rows : List (SessionId × SessionRow))
    (verdict : RecoveryVerdict) : Option (World × Option (List (SessionId × SessionRow))) :=
  match rows with
  | [] => some (w, none)
  | (sid, row) :: rows => some (w.setDb (recoverRow sid row verdict w.db), some rows)

end Discode
