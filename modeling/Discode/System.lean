import Discode.InputJob
import Discode.JanitorSweeps
import Discode.Library.ProcessPool
import Discode.Relay
import Discode.RunnerJobs

/-!
# The system

All parties over the shared state: the sagas of the bot, the jobs and the control API of
the runners, the janitor and the relays.  A transaction that is a whole operation is a step
of the environment, everything else is a process, and any process may crash at any point.
-/

set_option autoImplicit false

namespace Discode

inductive EnvAction where
  | tick (ms : ℕ)
  | configure (settings : Settings) (redactor : Redactor)
  | input (key : Key) (sid : SessionId) (guildId : GuildId) (text : PyStr)
  | stop (sid : SessionId) (guildId : GuildId) (hostId : Option HostId)
  | archive (sid : SessionId) (guildId : GuildId)
  | resume (sid : SessionId) (guildId : GuildId) (hostId : Option HostId)
  | restart (sid : SessionId) (guildId : GuildId)
  | bindThread (sid : SessionId) (threadId : ThreadId)
  | stopJob (hostId : HostId) (entry : ℕ)
  | heartbeat (hostId : HostId)
  | markOffline (hostId : HostId)
  | readNew (stream : StreamKey) (count : ℕ)
  /-- A consumer of another stream than `input:jobs` acknowledges or dead-letters. -/
  | retire (stream : StreamKey) (entry : ℕ)
  | retryOutbox (id : ℕ)

inductive SpawnAction where
  | createSaga (request : CreateRequest)
  | runnerJob (hostId : HostId) (entry : ℕ)
  | inputJob (hostId : HostId) (entry : ℕ)
  | recovery (hostId : HostId)
  | sweep (kind : SweepKind)
  | drift
  | relay (producer : Producer)
  | trim (stream : StreamKey)
  /-- The control API receives a reply that a handler posted. -/
  | reply (hostId : HostId) (pid : ℕ) (sid : SessionId) (version : ℕ) (replyKey : ReplyKey)
      (text : PyStr)

inductive Process where
  | createSaga (p : CreateSaga)
  | createJob (p : CreateJob)
  | resumeJob (p : ResumeJob)
  | input (p : InputHandler)
  | recovery (rows : List (SessionId × SessionRow))
  | sweep (p : Sweep)
  | drift (p : DriftSweep)
  | relay (p : RelayBatch)
  | trim (p : TrimCall)
  | reply (hostId : HostId) (p : ReplyRequest)

def Process.sweep? : Process → Option Sweep
  | .sweep p => some p
  | _ => none

inductive ExecAction where
  | createSaga (a : CreateSagaAction)
  | createJob (a : CreateJobAction)
  | resumeJob (a : ResumeJobAction)
  | input (a : InputAction)
  | recovery (verdict : RecoveryVerdict)
  | release (sid : SessionId)
  | sweep
  | drift (a : DriftAction)
  | relay (a : RelayAction)
  | trim (a : TrimAction)
  | reply (a : ReplyAction)
  | crash
  deriving DecidableEq, Repr

/-- The job of an entry that was read and not yet acknowledged. -/
def World.pendingJob? (w : World) (stream : StreamKey) (entry : ℕ) : Option Envelope :=
  if ((w.streams stream).groups ()).pending.contains entry then
    (w.streams stream).entries.lookup entry
  else none

/-- `build_session_lookup`. -/
def sessionLookup (db : Database) (hostId : HostId) (sid : SessionId) : Option SessionInfo :=
  ((db.session? sid).filter fun r ↦ r.hostId = some hostId).map fun r ↦
    ⟨r.status, r.lifecycleVersion⟩

def heartbeat (hostId : HostId) (db : Database) : Database :=
  let beat : RunnerHost := ⟨true, db.now⟩
  { db with runnerHosts :=
      (db.runnerHosts.insert? hostId beat).getD (db.runnerHosts.modify hostId fun _ ↦ beat) }

def markRunnerOffline (hostId : HostId) (db : Database) : Database :=
  { db with runnerHosts := db.runnerHosts.modify hostId fun host ↦ { host with online := false } }

/-- A saga that returns or raises without writing is no step. -/
def World.commit (w : World) (db : Option Database) : Option World := db.map w.setDb

def envStep (w : World) : EnvAction → Option World
  | .tick ms => some (w.tick ms)
  | .configure settings redactor => some { w with settings := settings, redactor := redactor }
  | .input key sid guildId text =>
      w.commit (runInputSaga w.settings key sid guildId text w.db).toOption
  | .stop sid guildId hostId => w.commit (runStopSaga sid guildId hostId w.db)
  | .archive sid guildId => w.commit (runArchiveSaga sid guildId w.db)
  | .resume sid guildId hostId => w.commit (runResumeSaga sid guildId hostId w.db)
  | .restart sid guildId =>
      match (runRestartSaga sid guildId w.db).toOption, w.db.session? sid with
      | some db, some row =>
          some ((w.setDb db).emit (.restarted sid (row.lifecycleVersion + 1)))
      | _, _ => none
  | .bindThread sid threadId => some (w.setDb (bindSessionThread sid threadId w.db).1)
  | .stopJob hostId entry =>
      match w.pendingJob? (.runnerJobs (some hostId)) entry with
      | some (.stopSession p) => some (w.setDb (runStopJob p hostId w.db))
      | _ => none
  | .heartbeat hostId => some (w.setDb (heartbeat hostId w.db))
  | .markOffline hostId => some (w.setDb (markRunnerOffline hostId w.db))
  | .readNew stream count =>
      some (w.setStream stream ((w.streams stream).readNew () count))
  | .retire stream entry =>
      match stream with
      | .inputJobs _ => none
      | _ => some (w.setStream stream ((w.streams stream).ack () entry))
  | .retryOutbox id => some (w.setDb (retryOutbox id w.db))

/-- The process that `dispatch_runner_job` runs for a job of `runner:jobs`. -/
def runnerProcess? (hostId : HostId) : Envelope → Option Process
  | .createSession p => some (.createJob ⟨p, hostId, .start⟩)
  | .resumeSession p => some (.resumeJob ⟨p, hostId, .start⟩)
  | .restartSession p => some (.resumeJob ⟨p, hostId, .check⟩)
  | _ => none

def spawnStep (_pid : ℕ) (w : World) : SpawnAction → Option (World × Process)
  | .createSaga request =>
      -- The only caller is `/start`, which passes no token of its own.
      if request.resumeToken = none then some (w, .createSaga ⟨request, .start⟩) else none
  | .runnerJob hostId entry =>
      ((w.pendingJob? (.runnerJobs (some hostId)) entry).bind (runnerProcess? hostId)).map
        fun p ↦ (w, p)
  | .inputJob hostId entry =>
      match w.pendingJob? (.inputJobs hostId) entry with
      | some (.sendInput p) => some (w, .input ⟨p, hostId, entry, .start⟩)
      | _ => none
  | .recovery hostId => some (w, .recovery (recoveryRows hostId w.db))
  | .sweep kind => some (w, .sweep ⟨kind, w.settings, w.db, []⟩)
  | .drift => some (w, .drift (.begin w.db))
  | .relay producer => some (w, .relay (.begin w.settings producer w.db))
  | .trim stream => some (w, .trim ⟨stream, .start⟩)
  | .reply hostId pid sid version replyKey text =>
      let body : ReplyBody := ⟨text, replyKey.text, some version⟩
      if .replied pid sid version replyKey (some text) ∈ w.log ∧ body.valid then
        some (w, .reply hostId (.begin w.redactor sid body))
      else none

/-- What a step of a request adds to the history. -/
def ReplyRequest.events (pid : ℕ) (p : ReplyRequest) (a : ReplyAction) (next : ReplyRequest) :
    List Event :=
  match a with
  | .check _ =>
      if next.stage = .send then [.chunkChecked pid p.session p.version p.idx] else []
  | .send (.delivered _) => [.chunkPosted pid p.session p.version p.idx]
  | _ => []

def replyStep (pid : ℕ) (w : World) (hostId : HostId) (p : ReplyRequest) (a : ReplyAction) :
    Option (World × Option Process) :=
  (p.step pid (sessionLookup w.db hostId p.session) w.replies a).map fun (s, next) ↦
    ({ w with replies := s, log := p.events pid a next ++ w.log }, some (.reply hostId next))

def execStep (pid : ℕ) (w : World) (p : Process) (a : ExecAction) :
    Option (World × Option Process) :=
  match p, a with
  | _, .crash => some (w.release pid, none)
  | .createSaga p, .createSaga a => (p.step pid w a).map fun (w, p) ↦ (w, p.map .createSaga)
  | .createJob p, .createJob a => (p.step w a).map fun (w, p) ↦ (w, p.map .createJob)
  | .resumeJob p, .resumeJob a => (p.step pid w a).map fun (w, p) ↦ (w, p.map .resumeJob)
  | .input p, .input a => (p.step pid w a).map fun (w, p) ↦ (w, p.map .input)
  | .recovery rows, .recovery verdict =>
      (Recovery.step w rows verdict).map fun (w, p) ↦ (w, p.map .recovery)
  | .sweep p, .release sid => (p.release w.db sid).map fun p ↦ (w, some (.sweep p))
  | .sweep p, .sweep => if p.ready w.db then some (p.step w, none) else none
  | .drift p, .drift a => (p.step w a).map fun (w, p) ↦ (w, p.map .drift)
  | .relay p, .relay a => (p.step w a).map fun (w, p) ↦ (w, p.map .relay)
  | .trim p, .trim a => (p.step w a).map fun (w, p) ↦ (w, p.map .trim)
  | .reply hostId p, .reply a => replyStep pid w hostId p a
  | _, _ => none

abbrev SystemState := ProcessPool.State World Process

abbrev SystemAction := ProcessPool.Action EnvAction SpawnAction ExecAction

def system : ProcessPool.Machine World Process EnvAction SpawnAction ExecAction where
  env := envStep
  spawn := spawnStep
  exec := execStep

/-- A fresh deployment. -/
def FreshWorld (w : World) : Prop := ∃ settings redactor, w = .init settings redactor

abbrev SystemReachable : SystemState → Prop := system.Reachable FreshWorld

/-! ## What a new process starts from -/

inductive SpawnStep (w : World) : SpawnAction → Process → Prop where
  | createSaga {request : CreateRequest} (h : request.resumeToken = none) :
      SpawnStep w (.createSaga request) (.createSaga ⟨request, .start⟩)
  | createJob {hostId : HostId} {entry : ℕ} {job : CreateJobPayload}
      (h : w.pendingJob? (.runnerJobs (some hostId)) entry = some (.createSession job)) :
      SpawnStep w (.runnerJob hostId entry) (.createJob ⟨job, hostId, .start⟩)
  | resumeJob {hostId : HostId} {entry : ℕ} {job : LifecyclePayload}
      (h : w.pendingJob? (.runnerJobs (some hostId)) entry = some (.resumeSession job)) :
      SpawnStep w (.runnerJob hostId entry) (.resumeJob ⟨job, hostId, .start⟩)
  | restartJob {hostId : HostId} {entry : ℕ} {job : LifecyclePayload}
      (h : w.pendingJob? (.runnerJobs (some hostId)) entry = some (.restartSession job)) :
      SpawnStep w (.runnerJob hostId entry) (.resumeJob ⟨job, hostId, .check⟩)
  | inputJob {hostId : HostId} {entry : ℕ} {job : InputJobPayload}
      (h : w.pendingJob? (.inputJobs hostId) entry = some (.sendInput job)) :
      SpawnStep w (.inputJob hostId entry) (.input ⟨job, hostId, entry, .start⟩)
  | recovery (hostId : HostId) :
      SpawnStep w (.recovery hostId) (.recovery (recoveryRows hostId w.db))
  | sweep (kind : SweepKind) : SpawnStep w (.sweep kind) (.sweep ⟨kind, w.settings, w.db, []⟩)
  | drift : SpawnStep w .drift (.drift (.begin w.db))
  | relay (producer : Producer) :
      SpawnStep w (.relay producer) (.relay (.begin w.settings producer w.db))
  | trim (stream : StreamKey) : SpawnStep w (.trim stream) (.trim ⟨stream, .start⟩)
  | reply {hostId : HostId} {pid : ℕ} {sid : SessionId} {version : ℕ} {replyKey : ReplyKey}
      {text : PyStr} (h : .replied pid sid version replyKey (some text) ∈ w.log)
      (hvalid : (⟨text, replyKey.text, some version⟩ : ReplyBody).valid) :
      SpawnStep w (.reply hostId pid sid version replyKey text)
        (.reply hostId (.begin w.redactor sid ⟨text, replyKey.text, some version⟩))

theorem spawnStep_cases {pid : ℕ} {w w' : World} {n : SpawnAction} {p : Process}
    (h : spawnStep pid w n = some (w', p)) : w' = w ∧ SpawnStep w n p := by
  cases n with
  | createSaga request =>
      simp only [spawnStep] at h
      split at h <;> cases h
      rename_i htoken
      exact ⟨rfl, .createSaga htoken⟩
  | runnerJob hostId entry =>
      obtain ⟨q, hq, he⟩ := Option.map_eq_some_iff.mp h
      cases he
      obtain ⟨e, hjob, he⟩ := Option.bind_eq_some_iff.mp hq
      cases e with
      | createSession job => cases he; exact ⟨rfl, .createJob hjob⟩
      | resumeSession job => cases he; exact ⟨rfl, .resumeJob hjob⟩
      | restartSession job => cases he; exact ⟨rfl, .restartJob hjob⟩
      | _ => cases he
  | inputJob hostId entry =>
      simp only [spawnStep] at h
      split at h <;> cases h
      rename_i job hjob
      exact ⟨rfl, .inputJob hjob⟩
  | recovery hostId => cases h; exact ⟨rfl, .recovery hostId⟩
  | sweep kind => cases h; exact ⟨rfl, .sweep kind⟩
  | drift => cases h; exact ⟨rfl, .drift⟩
  | relay producer => cases h; exact ⟨rfl, .relay producer⟩
  | trim stream => cases h; exact ⟨rfl, .trim stream⟩
  | reply hostId q sid version replyKey text =>
      simp only [spawnStep] at h
      split at h <;> cases h
      rename_i hreply
      exact ⟨rfl, .reply hreply.1 hreply.2⟩

/-! ## What one step of a process can do -/

inductive ExecStep (pid : ℕ) (w : World) :
    Process → ExecAction → World → Option Process → Prop where
  | crash (p : Process) : ExecStep pid w p .crash (w.release pid) none
  | createSaga {p : CreateSaga} {a : CreateSagaAction} {w' : World} {q : Option CreateSaga}
      (h : p.step pid w a = some (w', q)) :
      ExecStep pid w (.createSaga p) (.createSaga a) w' (q.map .createSaga)
  | createJob {p : CreateJob} {a : CreateJobAction} {w' : World} {q : Option CreateJob}
      (h : p.step w a = some (w', q)) :
      ExecStep pid w (.createJob p) (.createJob a) w' (q.map .createJob)
  | resumeJob {p : ResumeJob} {a : ResumeJobAction} {w' : World} {q : Option ResumeJob}
      (h : p.step pid w a = some (w', q)) :
      ExecStep pid w (.resumeJob p) (.resumeJob a) w' (q.map .resumeJob)
  | input {p : InputHandler} {a : InputAction} {w' : World} {q : Option InputHandler}
      (h : p.step pid w a = some (w', q)) :
      ExecStep pid w (.input p) (.input a) w' (q.map .input)
  | recovery {rows : List (SessionId × SessionRow)} {verdict : RecoveryVerdict} {w' : World}
      {q : Option (List (SessionId × SessionRow))}
      (h : Recovery.step w rows verdict = some (w', q)) :
      ExecStep pid w (.recovery rows) (.recovery verdict) w' (q.map .recovery)
  | release {p q : Sweep} {sid : SessionId} (h : p.release w.db sid = some q) :
      ExecStep pid w (.sweep p) (.release sid) w (some (.sweep q))
  | sweep (p : Sweep) (h : p.ready w.db = true) :
      ExecStep pid w (.sweep p) .sweep (p.step w) none
  | drift {p : DriftSweep} {a : DriftAction} {w' : World} {q : Option DriftSweep}
      (h : p.step w a = some (w', q)) : ExecStep pid w (.drift p) (.drift a) w' (q.map .drift)
  | relay {p : RelayBatch} {a : RelayAction} {w' : World} {q : Option RelayBatch}
      (h : p.step w a = some (w', q)) : ExecStep pid w (.relay p) (.relay a) w' (q.map .relay)
  | trim {p : TrimCall} {a : TrimAction} {w' : World} {q : Option TrimCall}
      (h : p.step w a = some (w', q)) : ExecStep pid w (.trim p) (.trim a) w' (q.map .trim)
  | reply {hostId : HostId} {p : ReplyRequest} {a : ReplyAction} {w' : World}
      {q : Option Process} (h : replyStep pid w hostId p a = some (w', q)) :
      ExecStep pid w (.reply hostId p) (.reply a) w' q

theorem execStep_cases {pid : ℕ} {w w' : World} {p : Process} {a : ExecAction}
    {q : Option Process} (h : execStep pid w p a = some (w', q)) : ExecStep pid w p a w' q := by
  by_cases ha : a = .crash
  · subst ha
    have hcrash : execStep pid w p .crash = some (w.release pid, none) := by cases p <;> rfl
    cases hcrash.symm.trans h
    exact .crash p
  cases p with
  | sweep p =>
      cases a with
      | release sid =>
          obtain ⟨q, hq, he⟩ := Option.map_eq_some_iff.mp h
          cases he
          exact .release hq
      | sweep =>
          simp only [execStep] at h
          split at h <;> cases h
          rename_i hready
          exact .sweep p hready
      | crash => exact absurd rfl ha
      | _ => cases h
  | reply hostId p =>
      cases a with
      | reply a => exact .reply h
      | crash => exact absurd rfl ha
      | _ => cases h
  | createSaga p =>
      cases a with
      | createSaga a =>
          obtain ⟨⟨w₁, q₁⟩, hstep, he⟩ := Option.map_eq_some_iff.mp h
          cases he
          exact .createSaga hstep
      | crash => exact absurd rfl ha
      | _ => cases h
  | createJob p =>
      cases a with
      | createJob a =>
          obtain ⟨⟨w₁, q₁⟩, hstep, he⟩ := Option.map_eq_some_iff.mp h
          cases he
          exact .createJob hstep
      | crash => exact absurd rfl ha
      | _ => cases h
  | resumeJob p =>
      cases a with
      | resumeJob a =>
          obtain ⟨⟨w₁, q₁⟩, hstep, he⟩ := Option.map_eq_some_iff.mp h
          cases he
          exact .resumeJob hstep
      | crash => exact absurd rfl ha
      | _ => cases h
  | input p =>
      cases a with
      | input a =>
          obtain ⟨⟨w₁, q₁⟩, hstep, he⟩ := Option.map_eq_some_iff.mp h
          cases he
          exact .input hstep
      | crash => exact absurd rfl ha
      | _ => cases h
  | recovery rows =>
      cases a with
      | recovery verdict =>
          obtain ⟨⟨w₁, q₁⟩, hstep, he⟩ := Option.map_eq_some_iff.mp h
          cases he
          exact .recovery hstep
      | crash => exact absurd rfl ha
      | _ => cases h
  | drift p =>
      cases a with
      | drift a =>
          obtain ⟨⟨w₁, q₁⟩, hstep, he⟩ := Option.map_eq_some_iff.mp h
          cases he
          exact .drift hstep
      | crash => exact absurd rfl ha
      | _ => cases h
  | relay p =>
      cases a with
      | relay a =>
          obtain ⟨⟨w₁, q₁⟩, hstep, he⟩ := Option.map_eq_some_iff.mp h
          cases he
          exact .relay hstep
      | crash => exact absurd rfl ha
      | _ => cases h
  | trim p =>
      cases a with
      | trim a =>
          obtain ⟨⟨w₁, q₁⟩, hstep, he⟩ := Option.map_eq_some_iff.mp h
          cases he
          exact .trim hstep
      | crash => exact absurd rfl ha
      | _ => cases h

/-! ## A deployment with default settings -/

def deployment : World := .init .default ⟨.asciiOnly, []⟩

theorem deployment_fresh : FreshWorld deployment := ⟨_, _, rfl⟩

/-- A relay publishes `rows` rows. -/
def relayRun (pid : ℕ) (producer : Producer) (rows : ℕ) : List SystemAction :=
  .spawn (.relay producer) :: (List.replicate rows RelayAction.xadd ++ [RelayAction.commit]).map
    fun a ↦ .exec pid (.relay a)

/-- A user opens session `sid` in thread `threadId` of host 5; its jobs are the entries
`entry` on.  The processes are `pid` to `pid + 2`. -/
def openRun (pid : ℕ) (sid : SessionId) (threadId : ThreadId) (name : PyStr) (entry : ℕ)
    (predecessor : Option SessionId) (minted : Option PyStr) : List SystemAction :=
  [.spawn (.createSaga ⟨sid, 1, 1, 1, name, 1, 5, some threadId, none⟩),
    .exec pid (.createSaga .acquire), .exec pid (.createSaga .count),
    .exec pid (.createSaga .beginSelect), .exec pid (.createSaga (.commit predecessor))] ++
  relayRun (pid + 1) .bot 1 ++
  [.env (.readNew (.runnerJobs (some 5)) 10), .spawn (.runnerJob 5 entry),
    .exec (pid + 2) (.createJob (.lockRow false)),
    .exec (pid + 2) (.createJob (.getAdapter false minted)), .exec (pid + 2) (.createJob .commit)]

/-- A message to the session reaches a handler; the processes are `pid` and `pid + 1`. -/
def inputRun (pid : ℕ) (key : Key) (sid : SessionId) (entry : ℕ) : List SystemAction :=
  .env (.input key sid 1 (pyStr "hello")) :: relayRun pid .bot 1 ++
    [.env (.readNew (.inputJobs 5) 10), .spawn (.inputJob 5 entry)]

/-- The actions of a handler, up to the intent transaction. -/
def admitRun (pid : ℕ) : List SystemAction :=
  [InputAction.lock false, .readSession, .readTurn, .readEarliest, .revalidate false, .persistIntent].map
    fun a ↦ .exec pid (.input a)

/-- The actions of a handler from the start of the subprocess on. -/
def answerRun (pid : ℕ) (reply : PyStr) (token : Option PyStr) : List SystemAction :=
  [InputAction.start, .finish reply token, .record, .post, .respond .ok, .mark, .leave, .acknowledge].map
    fun a ↦ .exec pid (.input a)

end Discode
