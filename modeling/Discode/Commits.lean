import Discode.SessionUpdates

/-!
# What a step commits

The table of the transactions that a step of the system can be.  What concerns session rows
or notices is read off it.
-/

set_option autoImplicit false

namespace Discode

/-- The session that a step of the drift sweep may flag. -/
def DriftSweep.flagged (p : DriftSweep) : DriftAction → Option SessionId
  | .next =>
      match p.stage, p.candidates with
      | .next, (sid, attempts) :: _ => if driftMaxAttempts ≤ attempts then some sid else none
      | _, _ => none
  | .commit =>
      match p.stage with
      | .bump sid => some sid
      | _ => none
  | _ => none

/-- The step `a` commits `db'`; one constructor for every kind of transaction. -/
inductive Commit (σ : SystemState) (db' : Database) : SystemAction → Prop where
  | elsewhere (a : SystemAction) (h : Updates (fun _ r ↦ r) [] σ.shared.db db') : Commit σ db' a
  | touch (a : SystemAction) {sid : SessionId} {row : SessionRow} {es : List Envelope}
      (hrow : σ.shared.db.session? sid = some row) (hlive : row.status.isLive = true)
      (hes : ∀ e ∈ es, ∃ job, e = .sendInput job)
      (h : Updates (.only sid fun r ↦
        { r with lastActivityAt := σ.shared.db.now, status := .running }) es σ.shared.db db') :
      Commit σ db' a
  | record (a : SystemAction) {sid : SessionId} {version : ℕ} {token : Option Token}
      (h : Updates (.only sid fun r ↦
        if r.lifecycleVersion = version ∧ r.status.isLive then
          { r with
            toolResumeToken := token <|> r.toolResumeToken, lastActivityAt := σ.shared.db.now }
        else r) [] σ.shared.db db') : Commit σ db' a
  | bind (a : SystemAction) {sid : SessionId} {row : SessionRow} {threadId : ThreadId}
      (hrow : σ.shared.db.session? sid = some row) (hnone : row.threadId = none)
      (h : Updates (.only sid fun r ↦ { r with threadId := some threadId }) [] σ.shared.db db') :
      Commit σ db' a
  | repair (a : SystemAction) {sid : SessionId} {f : SessionRow → SessionRow}
      (hf : ∀ r, ∃ reason attempts,
        f r = { r with statusReason := reason, repairAttempts := attempts } ∧
          (reason = r.statusReason ∨ StatusReason.isSuperseded reason = false))
      (hflag : ∀ r, StatusReason.isSuperseded r.statusReason = true →
        (f r).statusReason ≠ r.statusReason → r.threadId = none ∧ ∃ pid p b,
          a = .exec pid (.drift b) ∧ σ.procs pid = some (.drift p) ∧ p.flagged b = some sid)
      (h : Updates (.only sid f) [] σ.shared.db db') : Commit σ db' a
  | stop {sid : SessionId} {guildId : GuildId} {hostId : Option HostId}
      (hsaga : runStopSaga sid guildId hostId σ.shared.db = some db') :
      Commit σ db' (.env (.stop sid guildId hostId))
  | archive {sid : SessionId} {guildId : GuildId}
      (hsaga : runArchiveSaga sid guildId σ.shared.db = some db') :
      Commit σ db' (.env (.archive sid guildId))
  | resume {sid : SessionId} {guildId : GuildId} {hostId : Option HostId}
      (hsaga : runResumeSaga sid guildId hostId σ.shared.db = some db') :
      Commit σ db' (.env (.resume sid guildId hostId))
  | restart {sid : SessionId} {guildId : GuildId}
      (hsaga : runRestartSaga sid guildId σ.shared.db = .ok db') :
      Commit σ db' (.env (.restart sid guildId))
  | confirmStop (a : SystemAction) {sid : SessionId} {row : SessionRow}
      (hrow : σ.shared.db.session? sid = some row) (hs : row.status = .stopping)
      (h : Updates (.only sid fun r ↦ { r with status := .stopped }) [] σ.shared.db db') :
      Commit σ db' a
  | create {pid : ℕ} {req : CreateRequest} {snapshot : Database} {predecessor : Option SessionId}
      (hp : σ.procs pid = some (.createSaga ⟨req, .selecting snapshot⟩))
      (h : Creates req predecessor σ.shared.db db') :
      Commit σ db' (.exec pid (.createSaga (.commit predecessor)))
  | failCreation {pid : ℕ} {j : CreateJob} {reason : StatusReason} {row : SessionRow}
      {rows : List SessionId} (hp : σ.procs pid = some (.createJob j))
      (hstage : j.stage = .released reason rows)
      (hrow : σ.shared.db.session? j.payload.sessionId = some row) (hs : row.status = .creating)
      (h : Updates (fun s r ↦ (SessionUpdate.only j.payload.sessionId (fun r ↦
            { r with status := .failed, statusReason := some reason }) s r).released
              j.payload.sessionId rows s)
          [.systemNotice j.payload.sessionId j.payload.guildId j.payload.threadId
            .sessionCreateFailed reason.text] σ.shared.db db') :
      Commit σ db' (.exec pid (.createJob .fail))
  | markRunning {pid : ℕ} {j : CreateJob} {token : Option Token} {row : SessionRow}
      (hp : σ.procs pid = some (.createJob j))
      (hrow : σ.shared.db.session? j.payload.sessionId = some row) (hs : row.status = .creating)
      (h : Updates (.only j.payload.sessionId fun r ↦
            { r with
              status := .running, hostId := some j.hostId, runningAt := some σ.shared.db.now
              toolResumeToken := token <|> r.toolResumeToken })
          [.systemNotice j.payload.sessionId j.payload.guildId j.payload.threadId .sessionRunning
            "✅ Session ready. Send your messages in this thread."] σ.shared.db db') :
      Commit σ db' (.exec pid (.createJob .commit))
  | refuse {pid : ℕ} {j : ResumeJob} {row r : SessionRow} {es : List Envelope}
      (hp : σ.procs pid = some (.resumeJob j)) (hstage : j.stage = .refused row)
      (hr : resumingRow? σ.shared.db j.payload.sessionId row.lifecycleVersion = some r)
      (hes : row.threadId = none ∧ es = [] ∨ ∃ guildId threadId message,
        row.threadId = some threadId ∧
          es = [.terminalNotice j.payload.sessionId guildId (some threadId) message true])
      (h : Updates (.only j.payload.sessionId fun r ↦
          { r with status := .failed, statusReason := some .cwdInvalid }) es σ.shared.db db') :
      Commit σ db' (.exec pid (.resumeJob .refuse))
  | resumed (a : SystemAction) {sid : SessionId} {version : ℕ} {r : SessionRow}
      {token : Option Token} (hr : resumingRow? σ.shared.db sid version = some r)
      (h : Updates (.only sid fun r ↦
        { r with
          status := .running, lastActivityAt := σ.shared.db.now, toolResumeToken := token }) []
        σ.shared.db db') : Commit σ db' a
  | orphan {pid : ℕ} {j : ResumeJob} {row r : SessionRow}
      (hp : σ.procs pid = some (.resumeJob j)) (hstage : j.stage = .lost row)
      (hr : resumingRow? σ.shared.db j.payload.sessionId row.lifecycleVersion = some r)
      (h : Updates (.only j.payload.sessionId fun r ↦
            { r with status := .orphaned, statusReason := some .runnerLost })
          [.terminalNotice j.payload.sessionId (j.payload.guildId.getD row.guildId) row.threadId
            "Session resume failed." true] σ.shared.db db') :
      Commit σ db' (.exec pid (.resumeJob .orphan))
  | spurious {pid : ℕ} {j : ResumeJob} {row : SessionRow}
      (hp : σ.procs pid = some (.resumeJob j)) (hstage : j.stage = .lost row)
      (hr : resumingRow? σ.shared.db j.payload.sessionId row.lifecycleVersion = none)
      (h : Updates (fun _ r ↦ r) [.terminalNotice j.payload.sessionId
          (j.payload.guildId.getD row.guildId) row.threadId "Session resume failed." true]
        σ.shared.db db') : Commit σ db' (.exec pid (.resumeJob .orphan))
  | recover {pid : ℕ} {sid : SessionId} {row : SessionRow}
      {rest : List (SessionId × SessionRow)} {verdict : RecoveryVerdict} {status : Status}
      {reason : StatusReason} (hp : σ.procs pid = some (.recovery ((sid, row) :: rest)))
      (hverdict : verdict ≠ .recovered)
      (hstatus : status = .failed ∨ status = .orphaned)
      (hreason : StatusReason.isSuperseded (some reason) = false)
      (h : Updates (.only sid fun r ↦
        if r.lifecycleVersion = row.lifecycleVersion ∧
            r.status ∈ [.running, .idle, .resuming] then
          { r with status := status, statusReason := some reason } else r) [] σ.shared.db db') :
      Commit σ db' (.exec pid (.recovery verdict))
  | sweep {pid : ℕ} {p : Sweep} (hp : σ.procs pid = some (.sweep p))
      (hready : p.ready σ.shared.db = true)
      (hdb : db' = runSweep p.settings p.snapshot p.released σ.shared.db p.kind) :
      Commit σ db' (.exec pid .sweep)

theorem drift_repairs (sid : SessionId) (db : Database) :
    ∀ x ∈ [(driftDeadLetter sid db, true), (driftClear sid db, false), (driftBump sid db, true)],
      ∃ f, (∀ r : SessionRow, ∃ reason attempts,
          f r = { r with statusReason := reason, repairAttempts := attempts } ∧
            (reason = r.statusReason ∨ StatusReason.isSuperseded reason = false)) ∧
        (∀ r : SessionRow, StatusReason.isSuperseded r.statusReason = true →
          (f r).statusReason ≠ r.statusReason → r.threadId = none ∧ x.2 = true) ∧
        Updates (.only sid f) [] db x.1 := by
  have hkeep : ∀ r : SessionRow, ∃ reason attempts,
      r = { r with statusReason := reason, repairAttempts := attempts } ∧
        (reason = r.statusReason ∨ StatusReason.isSuperseded reason = false) :=
    fun r ↦ ⟨_, _, rfl, .inl rfl⟩
  intro x hx
  simp only [List.mem_cons, List.not_mem_nil, or_false] at hx
  rcases hx with rfl | rfl | rfl
  · refine ⟨_, fun r ↦ ?_, fun r _ hne ↦ ?_, .updateSession _ _ db⟩
    · split
      · exact hkeep r
      · exact ⟨_, _, rfl, .inr rfl⟩
    · split at hne
      · exact absurd rfl hne
      · rename_i hguard
        exact ⟨Option.not_isSome_iff_eq_none.mp (not_or.mp hguard).1, rfl⟩
  · refine ⟨_, fun r ↦ ?_, fun r hs hne ↦ ?_, .updateSession _ _ db⟩
    · split
      · exact ⟨_, _, rfl, .inr rfl⟩
      · exact hkeep r
    · split at hne
      · rename_i hreason
        rcases hreason with hreason | hreason <;> rw [hreason] at hs <;> cases hs
      · exact absurd rfl hne
  · refine ⟨_, fun r ↦ ?_, fun r _ hne ↦ ?_, .updateSession _ _ db⟩
    · split
      · exact hkeep r
      · refine ⟨_, _, rfl, ?_⟩
        split
        · exact .inr rfl
        · split
          · exact .inl rfl
          · exact .inr rfl
    · split at hne
      · exact absurd rfl hne
      · rename_i hguard
        exact ⟨Option.not_isSome_iff_eq_none.mp hguard, rfl⟩

theorem envStep_commit {σ : SystemState} {w : World} {e : EnvAction}
    (h : envStep σ.shared e = some w) : Commit σ w.db (.env e) := by
  cases e with
  | tick ms => cases h; exact .elsewhere _ (.elsewhere rfl rfl)
  | configure settings redactor => cases h; exact .elsewhere _ (.refl _)
  | input key sid guildId text =>
      obtain ⟨db, hdb, rfl⟩ := commit_eq_some h
      cases hr : runInputSaga σ.shared.settings key sid guildId text σ.shared.db with
      | error e => rw [hr] at hdb; cases hdb
      | ok db' =>
          rw [hr] at hdb
          cases hdb
          obtain ⟨row, job, hrow, hlive, hupd⟩ := runInputSaga_updates hr
          exact .touch _ hrow hlive (fun e he ↦ ⟨job, List.mem_singleton.mp he⟩) hupd
  | stop sid guildId hostId =>
      obtain ⟨db, hdb, rfl⟩ := commit_eq_some h
      exact .stop hdb
  | archive sid guildId =>
      obtain ⟨db, hdb, rfl⟩ := commit_eq_some h
      exact .archive hdb
  | resume sid guildId hostId =>
      obtain ⟨db, hdb, rfl⟩ := commit_eq_some h
      exact .resume hdb
  | restart sid guildId =>
      simp only [envStep] at h
      split at h
      · rename_i db row hdb hrow
        cases h
        cases hr : runRestartSaga sid guildId σ.shared.db with
        | error e => rw [hr] at hdb; cases hdb
        | ok db' =>
            rw [hr] at hdb
            cases hdb
            exact .restart hr
      · cases h
  | bindThread sid threadId =>
      cases h
      rw [World.db_setDb]
      rcases bindSessionThread_updates sid threadId σ.shared.db with heq | ⟨row, hrow, hnone, hupd⟩
      · rw [heq]
        exact .elsewhere _ (.refl _)
      · exact .bind _ hrow hnone hupd
  | stopJob hostId entry =>
      simp only [envStep] at h
      split at h
      · rename_i p _
        cases h
        rw [World.db_setDb]
        rcases runStopJob_updates p hostId σ.shared.db with heq | ⟨row, hrow, hs, hupd⟩
        · rw [heq]
          exact .elsewhere _ (.refl _)
        · exact .confirmStop _ hrow hs hupd
      · cases h
  | heartbeat hostId => cases h; exact .elsewhere _ (.elsewhere rfl rfl)
  | markOffline hostId => cases h; exact .elsewhere _ (.elsewhere rfl rfl)
  | readNew stream count => cases h; exact .elsewhere _ (.refl _)
  | retire stream entry =>
      cases stream with
      | inputJobs host => cases h
      | runnerJobs host => cases h; exact .elsewhere _ (.refl _)
      | discordOutbound => cases h; exact .elsewhere _ (.refl _)
  | retryOutbox id => cases h; exact .elsewhere _ (.elsewhere rfl rfl)

theorem CreateSaga.step_commit {σ : SystemState} {pid : ℕ} {w : World} {p : CreateSaga}
    {q : Option CreateSaga} {a : CreateSagaAction} (hp : σ.procs pid = some (.createSaga p))
    (h : p.step pid σ.shared a = some (w, q)) : Commit σ w.db (.exec pid (.createSaga a)) := by
  cases a with
  | acquire =>
      simp only [CreateSaga.step] at h
      split at h
      · split at h <;> cases h
        exact .elsewhere _ (.refl _)
      · cases h
  | count =>
      simp only [CreateSaga.step] at h
      split at h
      · split at h <;> cases h <;> exact .elsewhere _ (.refl _)
      · cases h
  | beginSelect =>
      simp only [CreateSaga.step] at h
      split at h <;> cases h
      exact .elsewhere _ (.refl _)
  | commit predecessor =>
      simp only [CreateSaga.step] at h
      split at h
      · rename_i snapshot hstage
        obtain ⟨db, hdb, he⟩ := Option.map_eq_some_iff.mp h
        have hp' : σ.procs pid = some (.createSaga ⟨p.request, .selecting snapshot⟩) := by
          rw [hp, ← hstage]
        cases predecessor with
        | none =>
            cases he
            exact .create hp' (createSession_creates hdb)
        | some p' =>
            cases he
            exact .create hp' (createSession_creates hdb)
      · cases h

theorem CreateJob.step_commit {σ : SystemState} {pid : ℕ} {w : World} {p : CreateJob}
    {q : Option CreateJob} {a : CreateJobAction} (hp : σ.procs pid = some (.createJob p))
    (h : p.step σ.shared a = some (w, q)) : Commit σ w.db (.exec pid (.createJob a)) := by
  cases a with
  | lockRow denied =>
      simp only [CreateJob.step] at h
      split at h
      · split at h
        · cases h
          exact .elsewhere _ (.refl _)
        · split at h <;> cases h <;> exact .elsewhere _ (.refl _)
      · cases h
  | getAdapter unknown minted =>
      simp only [CreateJob.step] at h
      split at h <;> cases h
      exact .elsewhere _ (.refl _)
  | release =>
      rw [(CreateJob.release_cases h).1]
      exact .elsewhere _ (.refl _)
  | fail =>
      simp only [CreateJob.step] at h
      split at h
      · rename_i reason rows hstage
        cases h
        rw [World.db_setDb]
        rcases failAndNotify_updates p.payload reason rows σ.shared.db with
          ⟨-, heq⟩ | ⟨row, hrow, hs, hupd⟩
        · rw [heq]
          exact .elsewhere _ (.refl _)
        · exact .failCreation hp hstage hrow hs hupd
      · cases h
  | commit =>
      simp only [CreateJob.step] at h
      split at h
      · split at h
        · rename_i hdb
          cases h
          obtain ⟨row, hrow, hs, hupd⟩ := markRunning_updates hdb
          exact .markRunning hp hrow hs hupd
        · cases h
          exact .elsewhere _ (.refl _)
      · cases h
  | register =>
      simp only [CreateJob.step] at h
      split at h <;> cases h
      exact .elsewhere _ (.refl _)

theorem World.resumed_commit (σ : SystemState) (a : SystemAction) (p : LifecyclePayload)
    (row : SessionRow) (token : Option Token) :
    Commit σ (σ.shared.resumed p row token).db a := by
  unfold World.resumed
  split
  · exact .elsewhere _ (.refl _)
  · rename_i hdb
    obtain ⟨r, hr, hupd⟩ := markResumed_updates hdb
    exact .resumed _ hr hupd

theorem ResumeJob.step_commit {σ : SystemState} {pid : ℕ} {w : World} {p : ResumeJob}
    {q : Option ResumeJob} {a : ResumeJobAction} (hp : σ.procs pid = some (.resumeJob p))
    (h : p.step pid σ.shared a = some (w, q)) : Commit σ w.db (.exec pid (.resumeJob a)) := by
  cases a with
  | check =>
      simp only [ResumeJob.step] at h
      split at h
      · split at h
        · cases h
          exact .elsewhere _ (.refl _)
        · split at h <;> cases h <;> exact .elsewhere _ (.refl _)
      · cases h
  | lock collision =>
      simp only [ResumeJob.step] at h
      split at h
      · split at h <;> cases h <;> exact .elsewhere _ (.refl _)
      · cases h
  | read =>
      simp only [ResumeJob.step] at h
      split at h
      · split at h
        · cases h
          exact .elsewhere _ (.refl _)
        · split at h <;> cases h <;> exact .elsewhere _ (.refl _)
      · cases h
  | revalidate denied =>
      simp only [ResumeJob.step] at h
      split at h <;> cases h
      exact .elsewhere _ (.refl _)
  | refuse =>
      simp only [ResumeJob.step] at h
      split at h
      · rename_i row hstage
        cases h
        rw [World.db_release, World.db_setDb]
        rcases refuseResume_updates p.payload row σ.shared.db with
          ⟨-, heq⟩ | ⟨r, es, hr, hes, hupd⟩
        · rw [heq]
          exact .elsewhere _ (.refl _)
        · exact .refuse hp hstage hr hes hupd
      · cases h
  | mint minted =>
      simp only [ResumeJob.step] at h
      split at h <;> cases h
      exact .elsewhere _ (.refl _)
  | commit =>
      simp only [ResumeJob.step] at h
      split at h <;> cases h
      exact World.resumed_commit σ _ _ _ _
  | commitFails applied =>
      simp only [ResumeJob.step] at h
      split at h <;> cases h
      split
      · exact World.resumed_commit σ _ _ _ _
      · exact .elsewhere _ (.refl _)
  | orphan =>
      simp only [ResumeJob.step] at h
      split at h
      · rename_i row hstage
        cases h
        rw [World.db_release, World.db_setDb]
        rcases orphanResume_updates p.payload row σ.shared.db with ⟨hnone, hupd⟩ | ⟨r, hr, hupd⟩
        · exact .spurious hp hstage hnone hupd
        · exact .orphan hp hstage hr hupd
      · cases h

theorem DriftSweep.step_commit {σ : SystemState} {pid : ℕ} {w : World} {p : DriftSweep}
    {q : Option DriftSweep} {a : DriftAction} (hp : σ.procs pid = some (.drift p))
    (h : p.step σ.shared a = some (w, q)) : Commit σ w.db (.exec pid (.drift a)) := by
  have hrepair : ∀ sid, ∀ x ∈ [(driftDeadLetter sid σ.shared.db, true),
      (driftClear sid σ.shared.db, false), (driftBump sid σ.shared.db, true)],
      (x.2 = true → p.flagged a = some sid) → Commit σ x.1 (.exec pid (.drift a)) := by
    intro sid x hx hflagged
    obtain ⟨f, hf, hflag, hupd⟩ := drift_repairs sid σ.shared.db x hx
    refine .repair _ hf (fun r hs hne ↦ ?_) hupd
    obtain ⟨hthread, hx⟩ := hflag r hs hne
    exact ⟨hthread, pid, p, a, rfl, hp, hflagged hx⟩
  cases a with
  | readFlagged =>
      simp only [DriftSweep.step] at h
      split at h <;> cases h
      exact .elsewhere _ (.refl _)
  | next =>
      simp only [DriftSweep.step] at h
      split at h
      · cases h
        exact .elsewhere _ (.refl _)
      · rename_i sid attempts rest hstage hcandidates
        split at h
        · rename_i hmax
          cases h
          refine hrepair sid (_, true) (by simp) fun _ ↦ ?_
          simp only [flagged, hstage, hcandidates, if_pos hmax]
        · split at h <;> cases h <;> exact .elsewhere _ (.refl _)
      · cases h
  | commit =>
      simp only [DriftSweep.step] at h
      split at h
      · rename_i sid threadId _
        cases h
        rw [World.db_setDb]
        rcases bindSessionThread_updates sid threadId σ.shared.db with
          heq | ⟨row, hrow, hnone, hupd⟩
        · rw [heq]
          exact .elsewhere _ (.refl _)
        · exact .bind _ hrow hnone hupd
      · rename_i sid _
        cases h
        exact hrepair sid (_, false) (by simp) fun he ↦ by cases he
      · rename_i sid hstage
        cases h
        refine hrepair sid (_, true) (by simp) fun _ ↦ ?_
        simp only [flagged, hstage]
      · cases h
  | skip =>
      simp only [DriftSweep.step] at h
      split at h <;> cases h <;> exact .elsewhere _ (.refl _)

theorem execStep_commit {σ : SystemState} {pid : ℕ} {w : World} {p : Process} {a : ExecAction}
    {q : Option Process} (hp : σ.procs pid = some p)
    (h : execStep pid σ.shared p a = some (w, q)) : Commit σ w.db (.exec pid a) := by
  cases execStep_cases h with
  | crash => exact .elsewhere _ (.refl _)
  | createSaga hstep => exact CreateSaga.step_commit hp hstep
  | createJob hstep => exact CreateJob.step_commit hp hstep
  | resumeJob hstep => exact ResumeJob.step_commit hp hstep
  | input hstep =>
      cases InputHandler.step_effect hstep with
      | persistIntent hstage hdb =>
          obtain ⟨row, hrow, -, hlive, hupd⟩ := admitTurn_updates hdb
          exact .touch _ hrow hlive (by simp) hupd
      | record hstage => exact .record _ (recordResult_updates _ _ _ _ _)
      | _ => exact .elsewhere _ (.elsewhere rfl rfl)
  | @recovery rows verdict _ _ hstep =>
      cases rows with
      | nil => cases hstep; exact .elsewhere _ (.refl _)
      | cons e rows =>
          obtain ⟨sid, row⟩ := e
          cases hstep
          rw [World.db_setDb]
          rcases recoverRow_updates sid row verdict σ.shared.db with
            ⟨-, heq⟩ | ⟨status, reason, hstatus, hreason, hupd⟩
          · rw [heq]
            exact .elsewhere _ (.refl _)
          · by_cases hverdict : verdict = .recovered
            · subst hverdict
              exact .elsewhere _ (.refl _)
            · exact .recover hp hverdict hstatus hreason hupd
  | release => exact .elsewhere _ (.refl _)
  | sweep p hready => exact .sweep hp hready rfl
  | drift hstep => exact DriftSweep.step_commit hp hstep
  | relay hstep =>
      refine .elsewhere _ ?_
      rename_i r a' q'
      cases a' with
      | xadd =>
          simp only [RelayBatch.step] at hstep
          split at hstep <;> cases hstep
          exact .refl _
      | xaddRaises =>
          simp only [RelayBatch.step] at hstep
          split at hstep <;> cases hstep
          exact .refl _
      | redisUnavailable => cases hstep; exact .refl _
      | commit =>
          simp only [RelayBatch.step] at hstep
          split at hstep <;> cases hstep
          exact .elsewhere rfl rfl
  | trim hstep =>
      rename_i p a' q'
      have hdb : w.db = σ.shared.db := by
        cases a' with
        | readGroup floor =>
            simp only [TrimCall.step] at hstep
            split at hstep <;> cases hstep
            rfl
        | readPending =>
            simp only [TrimCall.step] at hstep
            split at hstep <;> cases hstep
            rfl
        | trim =>
            simp only [TrimCall.step] at hstep
            split at hstep <;> cases hstep
            split <;> rfl
      rw [hdb]
      exact .elsewhere _ (.refl _)
  | reply hstep =>
      obtain ⟨⟨s, next⟩, -, he⟩ := Option.map_eq_some_iff.mp hstep
      cases he
      exact .elsewhere _ (.refl _)

theorem step_commit {σ τ : SystemState} {a : SystemAction} (h : system.step σ a = some τ) :
    Commit σ τ.shared.db a := by
  rcases step_world h with ⟨e, rfl, he⟩ | ⟨n, rfl, hw⟩ | ⟨pid, b, p, q, rfl, hp, hb⟩
  · exact envStep_commit he
  · rw [hw]
    exact .elsewhere _ (.refl _)
  · exact execStep_commit hp hb

end Discode
