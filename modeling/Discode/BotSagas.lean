import Discode.World

/-!
# The sagas of the bot

Each saga is one transaction that takes the session row `FOR UPDATE`, so it is one step.
The create saga locks its owner, counts, selects a predecessor and then commits; its
stages are kept apart because other writers run in between.
-/

set_option autoImplicit false

namespace Discode

/-! ## `run_input_saga` -/

/-- `session.input.accepted` events of the last minute. -/
def Database.recentInput (db : Database) (sid : SessionId) : List InputAccepted :=
  db.inputEvents.filter fun e ↦ e.sessionId = sid ∧ db.now ≤ e.createdAt + 60000

def Database.inputRateExceeded (settings : Settings) (db : Database) (sid : SessionId)
    (inputBytes : ℕ) : Bool :=
  settings.maxInputMessagesPerSessionPerMin ≤ (db.recentInput sid).length ∨
    settings.maxInputBytesPerSessionPerMin <
      ((db.recentInput sid).map InputAccepted.bytes).sum + inputBytes

/-- The rows `run_input_saga` writes once the message is accepted. -/
def Database.acceptInput (db : Database) (key : Key) (sid : SessionId) (row : SessionRow)
    (threadId : ThreadId) (hostId : HostId) (text : PyStr) : Option Database :=
  let touched := db.updateSession sid fun r ↦ { r with lastActivityAt := db.now, status := .running }
  (touched.insertTurn? key sid row.lifecycleVersion .queued).map fun db ↦
    { db with inputEvents := ⟨sid, utf8Length text, db.now⟩ :: db.inputEvents }.writeOutbox .bot
      (.inputJobs hostId) (.sendInput
        { sessionId := sid, guildId := row.guildId, threadId := threadId, hostId := hostId
          text := text, idempotencyKey := key, lifecycleVersion := some row.lifecycleVersion })

def runInputSaga (settings : Settings) (key : Key) (sid : SessionId) (guildId : GuildId)
    (text : PyStr) (db : Database) : Except String Database :=
  if strip text = [] then .error "empty_input"
  else if text.any isSurrogate then .error "surrogates not allowed"
  else if settings.maxInputBytesPerMessage < utf8Length text then .error "input_too_large"
  else if settings.emergencyStop then .error "emergency_stop"
  else match db.session? sid with
    | none => .error "session_not_found"
    | some row =>
        if row.guildId ≠ guildId then .error "session_not_found"
        else if !row.status.isLive then .error ("session_not_ready:" ++ row.status.text)
        else match row.threadId, row.hostId with
          | some threadId, some hostId =>
              if db.inputRateExceeded settings sid (utf8Length text) then
                .error "input_rate_limit: retry in one minute"
              else match db.acceptInput key sid row threadId hostId text with
                | none => .error "duplicate idempotency key"
                | some db => .ok db
          | _, _ => .error "session_not_ready"

/-! ## Stop, archive, resume and restart -/

/-- `run_stop_saga`; `none` when it returns false. -/
def runStopSaga (sid : SessionId) (guildId : GuildId) (hostId : Option HostId)
    (db : Database) : Option Database :=
  match db.session? sid with
  | none => none
  | some sess =>
      if sess.guildId ≠ guildId ∨ sess.status ∉ [.creating, .resuming, .running, .idle] then none
      else
        let stopped := db.updateSession sid fun r ↦
          { r with
            status := .stopping, lifecycleChangedAt := db.now
            lifecycleVersion := r.lifecycleVersion + 1 }
        some (stopped.writeOutbox .bot (.runnerJobs (hostId <|> sess.hostId))
          (.stopSession ⟨sid, some guildId, none, some (sess.lifecycleVersion + 1)⟩))

/-- `run_archive_saga`; `none` when it returns false. -/
def runArchiveSaga (sid : SessionId) (guildId : GuildId) (db : Database) : Option Database :=
  match db.session? sid with
  | none => none
  | some sess =>
      if sess.guildId ≠ guildId ∨ sess.status ∉ [.running, .idle, .stopped] then none
      else
        let archived := db.updateSession sid fun r ↦
          { r with
            status := .archived, lifecycleChangedAt := db.now
            lifecycleVersion := r.lifecycleVersion + 1 }
        let queued := archived.writeOutbox .bot (.runnerJobs sess.hostId)
          (.stopSession ⟨sid, some guildId, none, some (sess.lifecycleVersion + 1)⟩)
        match sess.threadId with
        | none => some queued
        | some threadId => some (queued.writeOutbox .bot .discordOutbound
            (.archiveThread sid guildId (some threadId)))

/-- `run_resume_saga`; `none` when it returns false. -/
def runResumeSaga (sid : SessionId) (guildId : GuildId) (hostId : Option HostId)
    (db : Database) : Option Database :=
  match db.session? sid with
  | none => none
  | some sess =>
      if sess.guildId ≠ guildId ∨ sess.status ≠ .archived then none
      else
        let resuming := db.updateSession sid fun r ↦
          { r with
            status := .resuming, lastActivityAt := db.now, lifecycleChangedAt := db.now
            lifecycleVersion := r.lifecycleVersion + 1 }
        some (resuming.writeOutbox .bot (.runnerJobs (hostId <|> sess.hostId))
          (.resumeSession ⟨sid, some guildId, sess.threadId, some (sess.lifecycleVersion + 1)⟩))

/-- `run_restart_saga`, with the texts of its two `ValueError`s. -/
def runRestartSaga (sid : SessionId) (guildId : GuildId) (db : Database) :
    Except String Database :=
  match db.session? sid with
  | none => .error "session not found"
  | some sess =>
      if sess.guildId ≠ guildId then .error "session not found"
      else if sess.status ∉ [.running, .idle, .stopped] then
        .error ("session " ++ toString sid ++ " not in restartable state")
      else
        let resuming := db.updateSession sid fun r ↦
          { r with
            toolResumeToken := none, status := .resuming
            lastActivityAt := db.now, lifecycleChangedAt := db.now
            lifecycleVersion := r.lifecycleVersion + 1 }
        .ok (resuming.writeOutbox .bot (.runnerJobs sess.hostId)
          (.restartSession ⟨sid, some guildId, sess.threadId, some (sess.lifecycleVersion + 1)⟩))

/-! ## `bind_session_thread` -/

/-- Binds a thread and patches the create job that is still queued.  The thread id is
unique in `sessions`.  The flag is the result's `success`. -/
def bindSessionThread (sid : SessionId) (threadId : ThreadId) (db : Database) :
    Database × Bool :=
  match db.session? sid with
  | none => (db, false)
  | some row =>
      if row.threadId = some threadId then (db, true)
      else if row.threadId.isSome then (db, false)
      else if db.sessions.entries.any fun e ↦ e.2.threadId = some threadId then (db, false)
      else
        let bound := db.updateSession sid fun r ↦ { r with threadId := some threadId }
        ({ bound with outbox := bound.outbox.mapRows fun _ row ↦
            match row.envelope, row.publishedAt with
            | .createSession p, none =>
                if p.sessionId = sid then
                  { row with envelope := .createSession { p with threadId := some threadId } }
                else row
            | _, _ => row }, true)

/-! ## `run_create_saga` -/

/-- The arguments of `run_create_saga` that reach the database. -/
structure CreateRequest where
  sessionId : SessionId
  guildId : GuildId
  ownerId : UserId
  tool : ToolName
  name : PyStr
  cwdRealpath : Path
  runnerHostId : HostId
  threadId : Option ThreadId
  resumeToken : Option Token
  deriving DecidableEq, Repr

def Database.activeSessionCount (db : Database) (guildId : GuildId) (ownerId : UserId) : ℕ :=
  (db.sessions.select fun _ r ↦ r.guildId = guildId ∧ r.ownerId = ownerId ∧
    r.status ∉ [.archived, .stopped, .failed, .orphaned]).length

def StatusReason.isSuperseded : Option StatusReason → Bool
  | some (.superseded _) => true
  | _ => false

/-- The `WHERE` clause of the search for a predecessor. -/
def CreateRequest.resumes (req : CreateRequest) (r : SessionRow) : Bool :=
  r.name = req.name ∧ r.guildId = req.guildId ∧ r.ownerId = req.ownerId ∧ r.tool = req.tool ∧
    r.cwdRealpath = req.cwdRealpath ∧ r.status = .archived ∧
      !StatusReason.isSuperseded r.statusReason

/-- The rows the `FOR UPDATE` query can lock: they matched when the query began and still
match in their current version. -/
def CreateRequest.predecessors (req : CreateRequest) (snapshot db : Database) :
    List (SessionId × SessionRow) :=
  db.sessions.select fun sid r ↦ req.resumes r ∧ (snapshot.session? sid).any req.resumes

/-- `ORDER BY created_at DESC LIMIT 1`; rows of one instant come in any order. -/
def CreateRequest.selects (req : CreateRequest) (snapshot db : Database) :
    Option SessionId → Bool
  | none => (req.predecessors snapshot db).isEmpty
  | some p => (req.predecessors snapshot db).any fun e ↦ e.1 = p ∧
      (req.predecessors snapshot db).all fun e' ↦ e'.2.createdAt ≤ e.2.createdAt

def SessionRow.create (req : CreateRequest) (now : Time) : SessionRow where
  guildId := req.guildId
  ownerId := req.ownerId
  tool := req.tool
  name := req.name
  cwdRealpath := req.cwdRealpath
  threadId := req.threadId
  hostId := some req.runnerHostId
  toolResumeToken := none
  status := .creating
  lifecycleVersion := 0
  lifecycleChangedAt := now
  statusReason := none
  createdAt := now
  runningAt := none
  lastActivityAt := now
  repairAttempts := 0

/-- The token the new session starts from: the caller's, or else the predecessor's. -/
def CreateRequest.resumeTokenToUse (req : CreateRequest) (db : Database)
    (predecessor : Option SessionId) : Option Token :=
  req.resumeToken <|> (predecessor.bind db.session?).bind SessionRow.toolResumeToken

/-- `UPDATE sessions SET status_reason` of the predecessor. -/
def Database.supersede (db : Database) (predecessor : Option SessionId) (heir : SessionId) :
    Database :=
  match predecessor with
  | none => db
  | some p => db.updateSession p fun r ↦ { r with statusReason := some (.superseded heir) }

/-- The writing half of `run_create_saga`. -/
def createSession (req : CreateRequest) (snapshot : Database) (predecessor : Option SessionId)
    (db : Database) : Option Database :=
  if !req.selects snapshot db predecessor then none
  else if req.threadId.isSome ∧ db.sessions.entries.any fun e ↦ e.2.threadId = req.threadId then
    none
  else
    let tagged := db.supersede predecessor req.sessionId
    (tagged.sessions.insert? req.sessionId (.create req db.now)).map fun sessions ↦
      { tagged with sessions := sessions }.writeOutbox .bot (.runnerJobs (some req.runnerHostId))
        (.createSession
          { sessionId := req.sessionId, guildId := req.guildId, ownerId := req.ownerId
            tool := req.tool, cwdRealpath := req.cwdRealpath, threadId := req.threadId
            resumeToken := req.resumeTokenToUse db predecessor })

inductive CreateSagaStage where
  | start
  | locked
  | counted
  | selecting (snapshot : Database)

structure CreateSaga where
  request : CreateRequest
  stage : CreateSagaStage

inductive CreateSagaAction where
  | acquire
  | count
  | beginSelect
  | commit (predecessor : Option SessionId)
  deriving DecidableEq, Repr

/-- One step of `run_create_saga`; a refusal for too many sessions ends it. -/
def CreateSaga.step (pid : ℕ) (w : World) (p : CreateSaga) :
    CreateSagaAction → Option (World × Option CreateSaga)
  | .acquire =>
      match p.stage with
      | .start =>
          let owner := (p.request.guildId, p.request.ownerId)
          if w.createLocks owner = none then
            some ({ w with createLocks := Function.update w.createLocks owner (some pid) },
              some { p with stage := .locked })
          else none
      | _ => none
  | .count =>
      match p.stage with
      | .locked =>
          if w.settings.maxActiveSessionsPerUser ≤
              w.db.activeSessionCount p.request.guildId p.request.ownerId then
            some (w.release pid, none)
          else some (w, some { p with stage := .counted })
      | _ => none
  | .beginSelect =>
      match p.stage with
      | .counted => some (w, some { p with stage := .selecting w.db })
      | _ => none
  | .commit predecessor =>
      match p.stage with
      | .selecting snapshot =>
          (createSession p.request snapshot predecessor w.db).map fun db ↦
            let token := p.request.resumeTokenToUse w.db predecessor
            let w := (w.setDb db).release pid
            (match predecessor with
              | none => w
              | some p' => w.emit (.tookOver p.request.sessionId p' token), none)
      | _ => none

end Discode
