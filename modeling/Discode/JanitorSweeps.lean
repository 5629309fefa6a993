import Discode.BotSagas

/-!
# The sweeps of the janitor

A sweep is one `UPDATE` under READ COMMITTED: its subqueries and its clock belong to the
snapshot taken when the statement began, and a row is written when it matched there and
still matches in its current version.
-/

set_option autoImplicit false

namespace Discode

namespace Database

/-- The row matched when the statement began and matches now. -/
def due (snapshot : Database) (p : SessionId → SessionRow → Bool) (sid : SessionId)
    (r : SessionRow) : Bool :=
  p sid r && (snapshot.session? sid).any (p sid)

/-- The rows a sweep returns, as they were before it. -/
def dueRows (snapshot : Database) (p : SessionId → SessionRow → Bool) (db : Database) :
    List (SessionId × SessionRow) :=
  db.sessions.select (snapshot.due p)

def updateDue (snapshot : Database) (p : SessionId → SessionRow → Bool)
    (f : SessionRow → SessionRow) (db : Database) : Database :=
  { db with sessions := db.sessions.mapRows fun sid r ↦ if snapshot.due p sid r then f r else r }

def writeAll (db : Database) (producer : Producer) (messages : List (StreamKey × Envelope)) :
    Database :=
  messages.foldl (fun db m ↦ db.writeOutbox producer m.1 m.2) db

/-- `NOT EXISTS` of a queued, executing or completed turn at the row's version. -/
def noPendingTurn (snapshot : Database) (sid : SessionId) (r : SessionRow) : Bool :=
  snapshot.inputTurns.entries.all fun e ↦
    !(e.2.sessionId = sid ∧ e.2.lifecycleVersion = r.lifecycleVersion ∧ e.2.status.isPending)

end Database

open Database

/-! ## Timeouts -/

def stuckCreating (settings : Settings) (snapshot : Database) (_ : SessionId)
    (r : SessionRow) : Bool :=
  r.status = .creating ∧
    r.createdAt + settings.sessionCreateTimeoutSeconds * 1000 < snapshot.now

/-- For each row it returns the sweep runs `release_superseded`, which matched `released`. -/
def sweepCreatingWatchdog (settings : Settings) (snapshot : Database)
    (released : SessionId → List SessionId) (db : Database) : Database :=
  let rows := snapshot.dueRows (stuckCreating settings snapshot) db
  let failed := snapshot.updateDue (stuckCreating settings snapshot)
    (fun r ↦ { r with status := .failed, statusReason := some .creationTimeout }) db
  let freed := rows.foldl (fun db e ↦ db.releaseSuperseded e.1 (released e.1)) failed
  freed.writeAll .janitor (rows.map fun e ↦ (.discordOutbound,
    .systemNotice e.1 e.2.guildId e.2.threadId .sessionCreateFailed "creation_timeout"))

def sweepResumingWatchdog (settings : Settings) (snapshot db : Database) : Database :=
  let stuck := fun (_ : SessionId) (r : SessionRow) ↦ decide (r.status = .resuming ∧
    r.lifecycleChangedAt + settings.resumeStuckThresholdSeconds * 1000 < snapshot.now)
  let orphaned := snapshot.updateDue stuck
    (fun r ↦ { r with status := .orphaned, statusReason := some .resumeStuck }) db
  orphaned.writeAll .janitor ((snapshot.dueRows stuck db).map fun e ↦ (.discordOutbound,
    .terminalNotice e.1 e.2.guildId e.2.threadId "Session resume timed out." true))

def sweepIdleTimeout (settings : Settings) (snapshot db : Database) : Database :=
  snapshot.updateDue
    (fun sid r ↦ r.status = .running ∧ snapshot.noPendingTurn sid r ∧
      r.lastActivityAt + settings.defaultIdleTimeoutMinutes * 60000 < snapshot.now)
    (fun r ↦ { r with status := .idle, lifecycleChangedAt := snapshot.now }) db

def sweepArchiveTimeout (settings : Settings) (snapshot db : Database) : Database :=
  let idle := fun (sid : SessionId) (r : SessionRow) ↦ decide (r.status = .idle ∧
    snapshot.noPendingTurn sid r ∧
    r.lastActivityAt + settings.defaultArchiveTimeoutMinutes * 60000 < snapshot.now)
  let archived := snapshot.updateDue idle
    (fun r ↦
      { r with
        status := .archived, lifecycleVersion := r.lifecycleVersion + 1
        lifecycleChangedAt := snapshot.now }) db
  archived.writeAll .janitor ((snapshot.dueRows idle db).flatMap fun e ↦
    (match e.2.hostId with
      | none => []
      | some host => [(.runnerJobs (some host),
          .stopSession ⟨e.1, none, none, some (e.2.lifecycleVersion + 1)⟩)]) ++
      [(.discordOutbound, .archiveThread e.1 e.2.guildId e.2.threadId)])

def sweepStopTimeout (settings : Settings) (snapshot db : Database) : Database :=
  let old := fun (sid : SessionId) (r : SessionRow) ↦
    decide (r.status ∈ [.running, .idle, .archived] ∧
      r.lastActivityAt + settings.defaultStopTimeoutHours * 3600000 < snapshot.now ∧
      snapshot.noPendingTurn sid r)
  -- A session without a host has no runner to confirm the stop.
  let stopped := snapshot.updateDue old
    (fun r ↦
      { r with
        status := if r.hostId.isSome then .stopping else .stopped
        statusReason := some .idleArchiveTimeout
        lifecycleVersion := r.lifecycleVersion + 1, lifecycleChangedAt := snapshot.now }) db
  stopped.writeAll .janitor ((snapshot.dueRows old db).flatMap fun e ↦
    match e.2.hostId with
    | none => []
    | some host => [(.runnerJobs (some host),
        .stopSession ⟨e.1, none, none, some (e.2.lifecycleVersion + 1)⟩)])

def sweepStoppingWatchdog (settings : Settings) (snapshot db : Database) : Database :=
  snapshot.updateDue
    (fun _ r ↦ r.status = .stopping ∧
      r.lifecycleChangedAt + settings.stopStuckThresholdSeconds * 1000 < snapshot.now)
    (fun r ↦
      { r with
        status := .stopped, statusReason := r.statusReason <|> some .stopUnconfirmed
        lifecycleVersion := r.lifecycleVersion + 1, lifecycleChangedAt := snapshot.now }) db

/-! ## Lost runners -/

/-- A host that is offline once this pass has marked the stale ones. -/
def offlineHost (settings : Settings) (snapshot : Database) (host : RunnerHost) : Bool :=
  !host.online ∨ host.lastHeartbeatAt + settings.runnerHeartbeatStaleSeconds * 1000 < snapshot.now

def lostHost (settings : Settings) (snapshot : Database) (hostId : HostId) : Bool :=
  (snapshot.runnerHosts.get? hostId).any fun host ↦ offlineHost settings snapshot host ∧
    host.lastHeartbeatAt + settings.orphanRecoveryTtlHours * 3600000 < snapshot.now

def onLostHost (settings : Settings) (snapshot : Database) (_ : SessionId) (r : SessionRow) :
    Bool :=
  decide (r.status ∈ [.running, .idle, .resuming]) && r.hostId.any (lostHost settings snapshot)

def failLost (settings : Settings) (snapshot db : Database) : Database :=
  snapshot.updateDue (onLostHost settings snapshot)
    (fun r ↦ { r with status := .failed, statusReason := some .runnerLost }) db

def sweepRunnerHeartbeatOrphans (settings : Settings) (snapshot db : Database) : Database :=
  let failed := failLost settings snapshot db
  let marked := { failed with runnerHosts := failed.runnerHosts.mapRows fun _ host ↦
    if host.lastHeartbeatAt + settings.runnerHeartbeatStaleSeconds * 1000 < snapshot.now then
      { host with online := false } else host }
  marked.writeAll .janitor ((snapshot.dueRows (onLostHost settings snapshot) db).map fun e ↦
    (.discordOutbound,
      .terminalNotice e.1 e.2.guildId e.2.threadId "Runner host lost. Session terminated." true))

/-! ## Retention

A pass deletes a bounded batch, and its `IN (SELECT …)` is not evaluated again on rows that
change meanwhile, so the batch is a choice of rows that qualified in the snapshot. -/

/-- The `count` oldest input events, of those past their retention. -/
def sweepEvents (settings : Settings) (count : ℕ) (snapshot db : Database) : Database :=
  let expired := db.inputEvents.filter fun e ↦
    e.createdAt + settings.eventRetentionDays * 86400000 < snapshot.now
  { db with inputEvents := db.inputEvents.take (db.inputEvents.length - min count expired.length) }

def outboxExpired (settings : Settings) (snapshot : Database) (row : OutboxRow) : Bool :=
  row.publishedAt.isSome ∧ row.createdAt + settings.outboxRetentionDays * 86400000 < snapshot.now

def sweepOutbox (settings : Settings) (batch : List ℕ) (snapshot db : Database) : Database :=
  { db with outbox := db.outbox.filterRows fun id _ ↦
      !(batch.contains id && (snapshot.outbox.get? id).any (outboxExpired settings snapshot)) }

def resultExpired (settings : Settings) (snapshot : Database) (turn : InputTurn) : Bool :=
  match settings.inputIdempotencyRetentionDays with
  | none => false
  | some days => (turn.status = .delivered ∨ turn.status = .deliveryFailed) ∧
      (turn.resultText.isSome ∨ turn.resumeToken.isSome) ∧
        turn.updatedAt + days * 86400000 < snapshot.now

def sweepTurnResults (settings : Settings) (batch : List Key) (snapshot db : Database) :
    Database :=
  { db with inputTurns := db.inputTurns.mapRows fun key turn ↦
      if batch.contains key && (snapshot.turn? key).any (resultExpired settings snapshot) then
        { turn with resultText := none, resumeToken := none } else turn }

/-! ## One pass -/

inductive SweepKind where
  | creatingWatchdog | resumingWatchdog | stoppingWatchdog | idleTimeout | archiveTimeout
  | stopTimeout | heartbeatOrphans
  | events (count : ℕ)
  | outbox (batch : List ℕ)
  | turnResults (batch : List Key)
  deriving DecidableEq, Repr

def runSweep (settings : Settings) (snapshot : Database) (released : SessionId → List SessionId)
    (db : Database) : SweepKind → Database
  | .creatingWatchdog => sweepCreatingWatchdog settings snapshot released db
  | .resumingWatchdog => sweepResumingWatchdog settings snapshot db
  | .stoppingWatchdog => sweepStoppingWatchdog settings snapshot db
  | .idleTimeout => sweepIdleTimeout settings snapshot db
  | .archiveTimeout => sweepArchiveTimeout settings snapshot db
  | .stopTimeout => sweepStopTimeout settings snapshot db
  | .heartbeatOrphans => sweepRunnerHeartbeatOrphans settings snapshot db
  | .events count => sweepEvents settings count snapshot db
  | .outbox batch => sweepOutbox settings batch snapshot db
  | .turnResults batch => sweepTurnResults settings batch snapshot db

/-- A sweep between its snapshot and its commit. -/
structure Sweep where
  kind : SweepKind
  settings : Settings
  snapshot : Database
  /-- The rows that `release_superseded` matched, for each session it ran for. -/
  releases : List (SessionId × List SessionId)

namespace Sweep

def released (p : Sweep) (sid : SessionId) : List SessionId := (p.releases.lookup sid).getD []

/-- The sessions for which the sweep runs `release_superseded`. -/
def failing (p : Sweep) (db : Database) : List SessionId :=
  match p.kind with
  | .creatingWatchdog =>
      (p.snapshot.dueRows (stuckCreating p.settings p.snapshot) db).map Prod.fst
  | _ => []

/-- `release_superseded` for a session that the sweep fails; a statement of its own. -/
def release (p : Sweep) (db : Database) (sid : SessionId) : Option Sweep :=
  if sid ∈ p.failing db ∧ p.releases.lookup sid = none then
    some { p with releases := (sid, db.supersededRows sid) :: p.releases }
  else none

theorem release_eq_some {p q : Sweep} {db : Database} {sid : SessionId}
    (h : p.release db sid = some q) : sid ∈ p.failing db ∧
      q = { p with releases := (sid, db.supersededRows sid) :: p.releases } := by
  unfold release at h
  split at h <;> cases h
  rename_i hguard
  exact ⟨hguard.1, rfl⟩

/-- Every statement before the commit was executed. -/
def ready (p : Sweep) (db : Database) : Bool :=
  (p.failing db).all fun sid ↦ (p.releases.lookup sid).isSome

def step (w : World) (p : Sweep) : World :=
  w.setDb (runSweep p.settings p.snapshot p.released w.db p.kind)

end Sweep

/-! ## `sweep_session_thread_binding_drift` -/

def driftMaxAttempts : ℕ := 3

inductive DriftStage where
  | flagged
  | next
  | bind (sid : SessionId) (threadId : ThreadId)
  | clear (sid : SessionId)
  | bump (sid : SessionId)
  deriving DecidableEq, Repr

structure DriftSweep where
  candidates : List (SessionId × ℕ)
  stage : DriftStage
  deriving DecidableEq, Repr

inductive DriftAction where
  | readFlagged
  | next
  | commit
  /-- The transaction of this candidate raised. -/
  | skip
  deriving DecidableEq, Repr

def driftCandidates (p : SessionRow → Bool) (db : Database) : List (SessionId × ℕ) :=
  (db.sessions.select fun _ r ↦ r.threadId.isNone ∧ p r).map fun e ↦ (e.1, e.2.repairAttempts)

def DriftSweep.begin (db : Database) : DriftSweep :=
  ⟨driftCandidates (fun r ↦ r.status ∈ [.running, .creating]) db, .flagged⟩

def driftDeadLetter (sid : SessionId) (db : Database) : Database :=
  db.updateSession sid fun r ↦
    if r.threadId.isSome ∨ r.repairAttempts < driftMaxAttempts then r
    else { r with statusReason := some .threadBindRepairExhausted }

def driftClear (sid : SessionId) (db : Database) : Database :=
  db.updateSession sid fun r ↦
    if r.statusReason = some .threadBindFailed ∨ r.statusReason = none then
      { r with statusReason := none, repairAttempts := r.repairAttempts + 1 } else r

def driftBump (sid : SessionId) (db : Database) : Database :=
  db.updateSession sid fun r ↦
    if r.threadId.isSome then r
    else
      { r with
        repairAttempts := r.repairAttempts + 1
        statusReason :=
          if driftMaxAttempts ≤ r.repairAttempts + 1 then some .threadBindRepairExhausted
          else if r.statusReason = some .threadBindRepairExhausted then r.statusReason
          else some .threadBindFailed }

/-- The thread id in the session's queued create job. -/
def queuedThreadId (sid : SessionId) (db : Database) : Option ThreadId :=
  db.outbox.entries.findSome? fun e ↦
    match e.2.envelope, e.2.publishedAt with
    | .createSession p, none => if p.sessionId = sid then p.threadId else none
    | _, _ => none

def DriftSweep.step (w : World) (p : DriftSweep) :
    DriftAction → Option (World × Option DriftSweep)
  | .readFlagged =>
      match p.stage with
      | .flagged =>
          let flagged := driftCandidates
            (fun r ↦ r.statusReason = some .threadBindFailed) w.db
          some (w, some ⟨p.candidates ++ flagged.filter (fun e ↦
            e.1 ∉ p.candidates.map Prod.fst), .next⟩)
      | _ => none
  | .next =>
      match p.stage, p.candidates with
      | .next, [] => some (w, none)
      | .next, (sid, attempts) :: rest =>
          if driftMaxAttempts ≤ attempts then
            some (w.setDb (driftDeadLetter sid w.db), some ⟨rest, .next⟩)
          else match queuedThreadId sid w.db with
            | some threadId => some (w, some ⟨rest, .bind sid threadId⟩)
            | none => some (w, some ⟨rest, .bump sid⟩)
      | _, _ => none
  | .commit =>
      match p.stage with
      | .bind sid threadId =>
          let (db, success) := bindSessionThread sid threadId w.db
          some (w.setDb db, some ⟨p.candidates, if success then .clear sid else .bump sid⟩)
      | .clear sid => some (w.setDb (driftClear sid w.db), some ⟨p.candidates, .next⟩)
      | .bump sid => some (w.setDb (driftBump sid w.db), some ⟨p.candidates, .next⟩)
      | _ => none
  | .skip =>
      match p.stage with
      | .flagged => none
      | .next => some (w, some ⟨p.candidates.tail, .next⟩)
      | _ => some (w, some ⟨p.candidates, .next⟩)

end Discode
