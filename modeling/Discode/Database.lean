import Discode.Library.KeyedTable
import Discode.Text

/-!
# The database

Rows of `sessions`, `input_turns`, `redis_outbox`, `runner_hosts` and the accepted-input
rows of `events`.  Identifiers are compared and never parsed, so each is a number; time
is the database clock in milliseconds.
-/

set_option autoImplicit false

namespace Discode

abbrev SessionId := ℕ
abbrev Key := ℕ
abbrev GuildId := ℕ
abbrev UserId := ℕ
abbrev ThreadId := ℕ
abbrev HostId := ℕ
abbrev ToolName := ℕ
abbrev Path := ℕ
abbrev Time := ℕ

inductive Status where
  | creating | running | idle | archived | resuming | stopping | stopped | failed | orphaned
  deriving DecidableEq, Repr

namespace Status

/-- The status as the database spells it. -/
def text : Status → String
  | creating => "creating"
  | running => "running"
  | idle => "idle"
  | archived => "archived"
  | resuming => "resuming"
  | stopping => "stopping"
  | stopped => "stopped"
  | failed => "failed"
  | orphaned => "orphaned"

/-- `status IN ('running','idle')`. -/
def isLive (s : Status) : Bool := s = running ∨ s = idle

end Status

inductive TurnStatus where
  | queued | executing | completed | delivered | uncertain | deliveryFailed | aborted
  deriving DecidableEq, Repr

namespace TurnStatus

/-- The turns that a later turn of the same version waits for. -/
def isUnfinished (s : TurnStatus) : Bool :=
  s = queued ∨ s = executing ∨ s = completed ∨ s = uncertain

/-- The turns that keep a session from being idled or archived. -/
def isPending (s : TurnStatus) : Bool := s = queued ∨ s = executing ∨ s = completed

def isTerminal (s : TurnStatus) : Bool := s = delivered ∨ s = deliveryFailed ∨ s = aborted

/-- No handler executes the turn or delivers its result any more. -/
def isSettled (s : TurnStatus) : Bool := s.isTerminal ∨ s = uncertain

end TurnStatus

inductive StatusReason where
  | creationTimeout | resumeStuck | idleArchiveTimeout | stopUnconfirmed | runnerLost
  | cwdInvalid | toolUnavailable | threadBindFailed | threadBindRepairExhausted
  | superseded (by_ : SessionId)
  deriving DecidableEq, Repr

namespace StatusReason

def text : StatusReason → String
  | creationTimeout => "creation_timeout"
  | resumeStuck => "resume_stuck"
  | idleArchiveTimeout => "idle_archive_timeout"
  | stopUnconfirmed => "stop_unconfirmed"
  | runnerLost => "runner_lost"
  | cwdInvalid => "cwd_invalid"
  | toolUnavailable => "tool_unavailable"
  | threadBindFailed => "thread_bind_failed"
  | threadBindRepairExhausted => "thread_bind_repair_exhausted"
  | superseded sid => "superseded:" ++ toString sid

end StatusReason

/-- Where a resume token came from: the output of a turn, a freshly minted uuid4, or the
caller of the create saga.  The code never looks at this label; it only copies tokens. -/
inductive TokenOrigin where
  | parsed (session : SessionId) (key : Key) (version : ℕ)
  | minted (session : SessionId)
  | given
  deriving DecidableEq, Repr

structure Token where
  value : PyStr
  origin : TokenOrigin
  deriving DecidableEq, Repr

structure SessionRow where
  guildId : GuildId
  ownerId : UserId
  tool : ToolName
  name : PyStr
  cwdRealpath : Path
  threadId : Option ThreadId
  hostId : Option HostId
  toolResumeToken : Option Token
  status : Status
  lifecycleVersion : ℕ
  lifecycleChangedAt : Time
  statusReason : Option StatusReason
  createdAt : Time
  runningAt : Option Time
  lastActivityAt : Time
  repairAttempts : ℕ
  deriving DecidableEq, Repr

structure InputTurn where
  sequence : ℕ
  sessionId : SessionId
  lifecycleVersion : ℕ
  status : TurnStatus
  resultText : Option PyStr
  resumeToken : Option Token
  updatedAt : Time
  deriving DecidableEq, Repr

/-- An `events` row of type `session.input.accepted`. -/
structure InputAccepted where
  sessionId : SessionId
  bytes : ℕ
  createdAt : Time
  deriving DecidableEq, Repr

structure CreateJobPayload where
  sessionId : SessionId
  guildId : GuildId
  ownerId : UserId
  tool : ToolName
  cwdRealpath : Path
  threadId : Option ThreadId
  resumeToken : Option Token
  deriving DecidableEq, Repr

structure InputJobPayload where
  sessionId : SessionId
  guildId : GuildId
  threadId : ThreadId
  hostId : HostId
  text : PyStr
  idempotencyKey : Key
  lifecycleVersion : Option ℕ
  deriving DecidableEq, Repr

/-- The payload of the stop, resume and restart envelopes. -/
structure LifecyclePayload where
  sessionId : SessionId
  guildId : Option GuildId
  threadId : Option ThreadId
  lifecycleVersion : Option ℕ
  deriving DecidableEq, Repr

inductive NoticeType where
  | sessionRunning | sessionCreateFailed
  deriving DecidableEq, Repr

inductive Envelope where
  | createSession (p : CreateJobPayload)
  | sendInput (p : InputJobPayload)
  | resumeSession (p : LifecyclePayload)
  | restartSession (p : LifecyclePayload)
  | stopSession (p : LifecyclePayload)
  | systemNotice (session : SessionId) (guild : GuildId) (thread : Option ThreadId)
      (noticeType : NoticeType) (message : String)
  | terminalNotice (session : SessionId) (guild : GuildId) (thread : Option ThreadId)
      (message : String) (thenArchive : Bool)
  | archiveThread (session : SessionId) (guild : GuildId) (thread : Option ThreadId)
  deriving DecidableEq, Repr

inductive Producer where
  | bot | runner | janitor
  deriving DecidableEq, Repr

inductive StreamKey where
  | runnerJobs (host : Option HostId)
  | inputJobs (host : HostId)
  | discordOutbound
  deriving DecidableEq, Repr

inductive OutboxError where
  | maxAttempts | other
  deriving DecidableEq, Repr

structure OutboxRow where
  producer : Producer
  streamKey : StreamKey
  envelope : Envelope
  createdAt : Time
  publishedAt : Option Time
  attempts : ℕ
  nextAttemptAt : Time
  error : Option OutboxError
  deriving DecidableEq, Repr

def OutboxRow.write (now : Time) (producer : Producer) (streamKey : StreamKey)
    (envelope : Envelope) : OutboxRow where
  producer := producer
  streamKey := streamKey
  envelope := envelope
  createdAt := now
  publishedAt := none
  attempts := 0
  nextAttemptAt := now
  error := none

structure RunnerHost where
  online : Bool
  lastHeartbeatAt : Time
  deriving DecidableEq, Repr

structure Database where
  now : Time
  sessions : KeyedTable SessionId SessionRow
  inputTurns : KeyedTable Key InputTurn
  /-- The next value of the identity column `input_turns.sequence`. -/
  nextSequence : ℕ
  inputEvents : List InputAccepted
  outbox : SerialTable OutboxRow
  runnerHosts : KeyedTable HostId RunnerHost

def Database.empty : Database where
  now := 0
  sessions := .empty
  inputTurns := .empty
  nextSequence := 1
  inputEvents := []
  outbox := .empty
  runnerHosts := .empty

/-- The settings that the modelled functions read. -/
structure Settings where
  emergencyStop : Bool
  sessionCreateTimeoutSeconds : ℕ
  resumeStuckThresholdSeconds : ℕ
  stopStuckThresholdSeconds : ℕ
  defaultIdleTimeoutMinutes : ℕ
  defaultArchiveTimeoutMinutes : ℕ
  defaultStopTimeoutHours : ℕ
  runnerHeartbeatStaleSeconds : ℕ
  orphanRecoveryTtlHours : ℕ
  maxActiveSessionsPerUser : ℕ
  maxInputBytesPerMessage : ℕ
  maxInputMessagesPerSessionPerMin : ℕ
  maxInputBytesPerSessionPerMin : ℕ
  /-- `none` is `never`. -/
  inputIdempotencyRetentionDays : Option ℕ
  eventRetentionDays : ℕ
  outboxRetentionDays : ℕ
  outboxBatchSize : ℕ
  outboxMaxAttempts : ℕ
  outboxBaseBackoffMs : ℕ
  outboxMaxBackoffMs : ℕ

def Settings.default : Settings where
  emergencyStop := false
  sessionCreateTimeoutSeconds := 60
  resumeStuckThresholdSeconds := 300
  stopStuckThresholdSeconds := 600
  defaultIdleTimeoutMinutes := 60
  defaultArchiveTimeoutMinutes := 120
  defaultStopTimeoutHours := 24
  runnerHeartbeatStaleSeconds := 15
  orphanRecoveryTtlHours := 24
  maxActiveSessionsPerUser := 10
  maxInputBytesPerMessage := 8192
  maxInputMessagesPerSessionPerMin := 20
  maxInputBytesPerSessionPerMin := 163840
  inputIdempotencyRetentionDays := some 30
  eventRetentionDays := 90
  outboxRetentionDays := 7
  outboxBatchSize := 64
  outboxMaxAttempts := 50
  outboxBaseBackoffMs := 100
  outboxMaxBackoffMs := 60000

namespace Database

def session? (db : Database) (sid : SessionId) : Option SessionRow := db.sessions.get? sid

def turn? (db : Database) (key : Key) : Option InputTurn := db.inputTurns.get? key

def updateSession (db : Database) (sid : SessionId) (f : SessionRow → SessionRow) : Database :=
  { db with sessions := db.sessions.modify sid f }

def updateTurn (db : Database) (key : Key) (f : InputTurn → InputTurn) : Database :=
  { db with inputTurns := db.inputTurns.modify key f }

/-- `INSERT INTO input_turns`; the sequence comes from the identity column. -/
def insertTurn? (db : Database) (key : Key) (sid : SessionId) (version : ℕ)
    (status : TurnStatus) : Option Database :=
  (db.inputTurns.insert? key
    { sequence := db.nextSequence, sessionId := sid, lifecycleVersion := version, status := status
      resultText := none, resumeToken := none, updatedAt := db.now }).map fun turns ↦
    { db with inputTurns := turns, nextSequence := db.nextSequence + 1 }

def writeOutbox (db : Database) (producer : Producer) (streamKey : StreamKey)
    (envelope : Envelope) : Database :=
  { db with outbox := db.outbox.insert (OutboxRow.write db.now producer streamKey envelope) }

/-- The rows that match the `WHERE` clause of `release_superseded`. -/
def supersededRows (db : Database) (failed : SessionId) : List SessionId :=
  (db.sessions.select fun _ r ↦
    r.status = .archived ∧ r.statusReason = some (.superseded failed)).map Prod.fst

/-- `release_superseded`: a predecessor is resumable again when its successor failed.  The
statement runs before the commit of its transaction and writes the rows that matched then. -/
def releaseSuperseded (db : Database) (failed : SessionId) (rows : List SessionId) : Database :=
  { db with sessions := db.sessions.mapRows fun sid r ↦
      if sid ∈ rows ∧ r.status = .archived ∧ r.statusReason = some (.superseded failed) then
        { r with statusReason := none } else r }

/-! ## What each operation leaves alone -/

@[simp] theorem session?_updateSession (db : Database) (sid : SessionId)
    (f : SessionRow → SessionRow) (sid' : SessionId) :
    (db.updateSession sid f).session? sid' =
      if sid' = sid then (db.session? sid').map f else db.session? sid' :=
  KeyedTable.get?_modify _ _ _ _

@[simp] theorem turn?_updateSession (db : Database) (sid : SessionId)
    (f : SessionRow → SessionRow) (key : Key) :
    (db.updateSession sid f).turn? key = db.turn? key := rfl

@[simp] theorem turn?_updateTurn (db : Database) (key : Key) (f : InputTurn → InputTurn)
    (key' : Key) :
    (db.updateTurn key f).turn? key' =
      if key' = key then (db.turn? key').map f else db.turn? key' :=
  KeyedTable.get?_modify _ _ _ _

@[simp] theorem session?_updateTurn (db : Database) (key : Key) (f : InputTurn → InputTurn)
    (sid : SessionId) : (db.updateTurn key f).session? sid = db.session? sid := rfl

@[simp] theorem session?_writeOutbox (db : Database) (producer : Producer) (streamKey : StreamKey)
    (envelope : Envelope) (sid : SessionId) :
    (db.writeOutbox producer streamKey envelope).session? sid = db.session? sid := rfl

@[simp] theorem turn?_writeOutbox (db : Database) (producer : Producer) (streamKey : StreamKey)
    (envelope : Envelope) (key : Key) :
    (db.writeOutbox producer streamKey envelope).turn? key = db.turn? key := rfl

@[simp] theorem turn?_releaseSuperseded (db : Database) (failed : SessionId)
    (rows : List SessionId) (key : Key) :
    (db.releaseSuperseded failed rows).turn? key = db.turn? key := rfl

@[simp] theorem session?_releaseSuperseded (db : Database) (failed : SessionId)
    (rows : List SessionId) (sid : SessionId) :
    (db.releaseSuperseded failed rows).session? sid = (db.session? sid).map fun r ↦
      if sid ∈ rows ∧ r.status = .archived ∧ r.statusReason = some (.superseded failed) then
        { r with statusReason := none } else r :=
  KeyedTable.get?_mapRows _ _ _

end Database

end Discode
