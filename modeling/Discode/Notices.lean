import Discode.Commits

/-!
# Notices and dying sessions

A session dies when a transaction moves it to `failed` or `orphaned`.  Which transactions
let sessions die, and which notices they write, decides whether a notice is ever spurious,
missing or repeated.
-/

set_option autoImplicit false

namespace Discode

def Status.isDead (s : Status) : Bool := s = .failed ∨ s = .orphaned

/-- `discord.terminal_notice.v1` and the two notices about a creation. -/
def Envelope.isNotice : Envelope → Bool
  | terminalNotice _ _ _ _ _ | systemNotice _ _ _ _ _ => true
  | _ => false

/-- The transaction moves the session to `failed` or `orphaned`. -/
def Dies (db db' : Database) (sid : SessionId) : Prop :=
  ∃ r r', db.session? sid = some r ∧ db'.session? sid = some r' ∧
    r.status.isDead = false ∧ r'.status.isDead = true

variable {f : SessionUpdate} {es : List Envelope} {db db' : Database}

theorem Updates.dies_iff (h : Updates f es db db') (sid : SessionId) :
    Dies db db' sid ↔ ∃ r, db.session? sid = some r ∧ r.status.isDead = false ∧
      (f sid r).status.isDead = true := by
  constructor
  · rintro ⟨r, r', hr, hr', hlive, hdead⟩
    cases (h.get hr).symm.trans hr'
    exact ⟨r, hr, hlive, hdead⟩
  · rintro ⟨r, hr, hlive, hdead⟩
    exact ⟨r, f sid r, hr, h.get hr, hlive, hdead⟩

theorem Updates.not_dies (h : Updates f es db db')
    (hf : ∀ s r, db.session? s = some r → r.status.isDead = false →
      (f s r).status.isDead = false) (sid : SessionId) : ¬ Dies db db' sid := by
  intro hdies
  obtain ⟨r, hr, hlive, hdead⟩ := (h.dies_iff sid).mp hdies
  rw [hf sid r hr hlive] at hdead
  cases hdead

/-- The update of one session that was alive and is not afterwards. -/
theorem Updates.only_dies {sid : SessionId} {g : SessionRow → SessionRow} {r : SessionRow}
    (h : Updates (.only sid g) es db db') (hr : db.session? sid = some r)
    (hlive : r.status.isDead = false) (hdead : (g r).status.isDead = true) (s : SessionId) :
    Dies db db' s ↔ s = sid := by
  rw [h.dies_iff]
  constructor
  · rintro ⟨r', hr', hlive', hdead'⟩
    by_contra hne
    rw [SessionUpdate.only, if_neg hne, hlive'] at hdead'
    cases hdead'
  · rintro rfl
    refine ⟨r, hr, hlive, ?_⟩
    rwa [SessionUpdate.only, if_pos rfl]

/-! ## Reports of sweeps -/

theorem mem_dueRows {snapshot : Database} {p : SessionId → SessionRow → Bool} {sid : SessionId}
    {r : SessionRow} : (sid, r) ∈ snapshot.dueRows p db ↔
      db.session? sid = some r ∧ snapshot.due p sid r = true :=
  KeyedTable.mem_select_iff

/-- A sweep lets the rows die that it reports. -/
structure Report (notice : SessionId × SessionRow → Envelope) (db db' : Database) : Prop where
  deaths : ∃ rows : List (SessionId × SessionRow), (rows.map Prod.fst).Nodup ∧
    db.written db' = rows.map notice ∧
    ∀ sid r, (sid, r) ∈ rows ↔ db.session? sid = some r ∧ Dies db db' sid

theorem Updates.whenDue_report {snapshot : Database} {p : SessionId → SessionRow → Bool}
    {g : SessionRow → SessionRow} {notice : SessionId × SessionRow → Envelope}
    {f : SessionUpdate}
    (h : Updates f ((snapshot.dueRows p db).map notice) db db')
    (hf : ∀ s r, (f s r).status = (SessionUpdate.whenDue snapshot p g s r).status)
    (hlive : ∀ s r, p s r = true → r.status.isDead = false)
    (hdead : ∀ r, (g r).status.isDead = true) : Report notice db db' := by
  refine ⟨snapshot.dueRows p db, ?_, h.written, fun sid r ↦ ?_⟩
  · exact db.sessions.nodup.sublist (List.filter_sublist.map _)
  · rw [mem_dueRows, h.dies_iff]
    constructor
    · rintro ⟨hr, hdue⟩
      refine ⟨hr, r, hr, hlive sid r (Bool.and_eq_true_iff.mp hdue).1, ?_⟩
      rw [hf, SessionUpdate.whenDue, if_pos hdue]
      exact hdead r
    · rintro ⟨hr, r', hr', halive, hdies⟩
      cases hr.symm.trans hr'
      refine ⟨hr, ?_⟩
      by_contra hdue
      rw [hf, SessionUpdate.whenDue, if_neg hdue, halive] at hdies
      cases hdies

theorem sweepCreatingWatchdog_report (settings : Settings) (snapshot : Database)
    (released : SessionId → List SessionId) (db : Database) :
    Report (fun e ↦ .systemNotice e.1 e.2.guildId e.2.threadId .sessionCreateFailed
      "creation_timeout") db (sweepCreatingWatchdog settings snapshot released db) ∧
    ∀ sid r, db.session? sid = some r →
      Dies db (sweepCreatingWatchdog settings snapshot released db) sid →
      r.status = .creating ∧ ∃ r',
        (sweepCreatingWatchdog settings snapshot released db).session? sid = some r' ∧
          r'.status = .failed := by
  have hupd := sweepCreatingWatchdog_updates settings snapshot released db
  have hstatus : ∀ s r, ((SessionUpdate.whenDue snapshot (stuckCreating settings snapshot) (fun r ↦
        { r with status := .failed, statusReason := some .creationTimeout }) s r).releasedAll
          released (snapshot.dueRows (stuckCreating settings snapshot) db) s).status =
      (SessionUpdate.whenDue snapshot (stuckCreating settings snapshot) (fun r ↦
        { r with status := .failed, statusReason := some .creationTimeout }) s r).status :=
    fun _ _ ↦ SessionRow.releasedAll_status _ _ _ _
  refine ⟨hupd.whenDue_report hstatus (fun s r hr ↦ by rw [stuckCreating_status hr]; rfl)
    fun _ ↦ rfl, fun sid r hr hdies ↦ ?_⟩
  obtain ⟨r₀, hr₀, hlive, hdead⟩ := (hupd.dies_iff sid).mp hdies
  cases hr.symm.trans hr₀
  rw [hstatus] at hdead
  unfold SessionUpdate.whenDue at hdead
  split at hdead
  · rename_i hdue
    refine ⟨stuckCreating_status (Bool.and_eq_true_iff.mp hdue).1, _, hupd.get hr, ?_⟩
    rw [hstatus, SessionUpdate.whenDue, if_pos hdue]
  · rw [hlive] at hdead
    cases hdead

theorem sweepResumingWatchdog_report (settings : Settings) (snapshot db : Database) :
    Report (fun e ↦ .terminalNotice e.1 e.2.guildId e.2.threadId "Session resume timed out." true)
      db (sweepResumingWatchdog settings snapshot db) := by
  obtain ⟨p, hp, hupd⟩ := sweepResumingWatchdog_updates settings snapshot db
  exact hupd.whenDue_report (fun _ _ ↦ rfl) (fun s r hr ↦ by rw [hp s r hr]; rfl) fun _ ↦ rfl

theorem sweepRunnerHeartbeatOrphans_report (settings : Settings) (snapshot db : Database) :
    Report (fun e ↦ .terminalNotice e.1 e.2.guildId e.2.threadId
      "Runner host lost. Session terminated." true) db
      (sweepRunnerHeartbeatOrphans settings snapshot db) := by
  obtain ⟨p, hp, hupd⟩ := sweepRunnerHeartbeatOrphans_updates settings snapshot db
  refine hupd.whenDue_report (fun _ _ ↦ rfl) (fun s r hr ↦ ?_) fun _ ↦ rfl
  have hs := hp s r hr
  simp only [List.mem_cons, List.not_mem_nil, or_false] at hs
  rcases hs with hs | hs | hs <;> rw [hs] <;> rfl

/-! ## The steps that announce something -/

/-- A step writes no notice and lets no session die, or it is one of these. -/
inductive Announces (σ : SystemState) (db' : Database) : SystemAction → Prop where
  | silent (a : SystemAction) (hnotices : ∀ e ∈ σ.shared.db.written db', e.isNotice = false)
      (hdeaths : ∀ sid, ¬ Dies σ.shared.db db' sid) : Announces σ db' a
  | creatingWatchdog {pid : ℕ} (h : Report (fun e ↦ .systemNotice e.1 e.2.guildId e.2.threadId
        .sessionCreateFailed "creation_timeout") σ.shared.db db')
      (hdeaths : ∀ sid r, σ.shared.db.session? sid = some r → Dies σ.shared.db db' sid →
        r.status = .creating ∧ ∃ r', db'.session? sid = some r' ∧ r'.status = .failed) :
      Announces σ db' (.exec pid .sweep)
  | terminalSweep {pid : ℕ} {message : String}
      (h : Report (fun e ↦ .terminalNotice e.1 e.2.guildId e.2.threadId message true)
        σ.shared.db db') : Announces σ db' (.exec pid .sweep)
  | failCreation {pid : ℕ} {j : CreateJob} {message : String} {r r' : SessionRow}
      (hp : σ.procs pid = some (.createJob j))
      (hr : σ.shared.db.session? j.payload.sessionId = some r) (hs : r.status = .creating)
      (hr' : db'.session? j.payload.sessionId = some r') (hs' : r'.status = .failed)
      (hdies : ∀ s, Dies σ.shared.db db' s ↔ s = j.payload.sessionId)
      (hwritten : σ.shared.db.written db' = [.systemNotice j.payload.sessionId j.payload.guildId
        j.payload.threadId .sessionCreateFailed message]) :
      Announces σ db' (.exec pid (.createJob .fail))
  | markRunning {pid : ℕ} {j : CreateJob} {message : String} {r r' : SessionRow}
      (hp : σ.procs pid = some (.createJob j))
      (hr : σ.shared.db.session? j.payload.sessionId = some r) (hs : r.status = .creating)
      (hr' : db'.session? j.payload.sessionId = some r') (hs' : r'.status = .running)
      (hdies : ∀ s, ¬ Dies σ.shared.db db' s)
      (hwritten : σ.shared.db.written db' = [.systemNotice j.payload.sessionId j.payload.guildId
        j.payload.threadId .sessionRunning message]) :
      Announces σ db' (.exec pid (.createJob .commit))
  | refuse {pid : ℕ} {j : ResumeJob} {row r : SessionRow}
      (hp : σ.procs pid = some (.resumeJob j)) (hstage : j.stage = .refused row)
      (hr : resumingRow? σ.shared.db j.payload.sessionId row.lifecycleVersion = some r)
      (hdies : ∀ s, Dies σ.shared.db db' s ↔ s = j.payload.sessionId)
      (hwritten : row.threadId = none ∧ σ.shared.db.written db' = [] ∨
        ∃ guildId threadId message, row.threadId = some threadId ∧ σ.shared.db.written db' =
          [.terminalNotice j.payload.sessionId guildId (some threadId) message true]) :
      Announces σ db' (.exec pid (.resumeJob .refuse))
  | orphan {pid : ℕ} {j : ResumeJob} {row : SessionRow} {guildId : GuildId}
      (hp : σ.procs pid = some (.resumeJob j)) (hstage : j.stage = .lost row)
      (hdies : ∀ s, Dies σ.shared.db db' s ↔ s = j.payload.sessionId ∧
        (resumingRow? σ.shared.db j.payload.sessionId row.lifecycleVersion).isSome)
      (hwritten : σ.shared.db.written db' = [.terminalNotice j.payload.sessionId guildId
        row.threadId "Session resume failed." true]) :
      Announces σ db' (.exec pid (.resumeJob .orphan))
  | recover {pid : ℕ} {sid : SessionId} {row : SessionRow} {rest : List (SessionId × SessionRow)}
      {verdict : RecoveryVerdict} (hp : σ.procs pid = some (.recovery ((sid, row) :: rest)))
      (hverdict : verdict ≠ .recovered)
      (hdies : ∀ s, Dies σ.shared.db db' s ↔ s = sid ∧ ∃ r, σ.shared.db.session? sid = some r ∧
        r.lifecycleVersion = row.lifecycleVersion ∧ r.status ∈ [.running, .idle, .resuming])
      (hwritten : σ.shared.db.written db' = []) : Announces σ db' (.exec pid (.recovery verdict))

theorem Announces.of_updates {σ : SystemState} {f : SessionUpdate} {es : List Envelope}
    {db' : Database} (a : SystemAction) (h : Updates f es σ.shared.db db')
    (hes : ∀ e ∈ es, e.isNotice = false)
    (hf : ∀ s r, σ.shared.db.session? s = some r → r.status.isDead = false →
      (f s r).status.isDead = false) : Announces σ db' a :=
  .silent a (h.written ▸ hes) (h.not_dies hf)

/-- The update of one session to a status in which it is not dead. -/
theorem Announces.of_only {σ : SystemState} {sid : SessionId} {g : SessionRow → SessionRow}
    {es : List Envelope} {db' : Database} (a : SystemAction)
    (h : Updates (.only sid g) es σ.shared.db db') (hes : ∀ e ∈ es, e.isNotice = false)
    (hg : ∀ r, r.status.isDead = false → (g r).status.isDead = false) : Announces σ db' a := by
  refine .of_updates a h hes fun s r _ hlive ↦ ?_
  unfold SessionUpdate.only
  split
  · exact hg r hlive
  · exact hlive

theorem Announces.of_whenDue {σ : SystemState} {snapshot : Database}
    {p : SessionId → SessionRow → Bool} {g : SessionRow → SessionRow} {es : List Envelope}
    {db' : Database} (a : SystemAction) (h : Updates (.whenDue snapshot p g) es σ.shared.db db')
    (hes : ∀ e ∈ es, e.isNotice = false) (hg : ∀ r, (g r).status.isDead = false) :
    Announces σ db' a := by
  refine .of_updates a h hes fun s r _ hlive ↦ ?_
  unfold SessionUpdate.whenDue
  split
  · exact hg r
  · exact hlive

theorem sweep_announces {σ : SystemState} {pid : ℕ} (p : Sweep) :
    Announces σ (runSweep p.settings p.snapshot p.released σ.shared.db p.kind)
      (.exec pid .sweep) := by
  cases hk : p.kind with
  | creatingWatchdog =>
      obtain ⟨hreport, hdeaths⟩ :=
        sweepCreatingWatchdog_report p.settings p.snapshot p.released σ.shared.db
      exact .creatingWatchdog hreport hdeaths
  | resumingWatchdog =>
      exact .terminalSweep (sweepResumingWatchdog_report p.settings p.snapshot σ.shared.db)
  | heartbeatOrphans =>
      exact .terminalSweep (sweepRunnerHeartbeatOrphans_report p.settings p.snapshot σ.shared.db)
  | stoppingWatchdog =>
      obtain ⟨_, -, hupd⟩ := sweepStoppingWatchdog_updates p.settings p.snapshot σ.shared.db
      exact .of_whenDue _ hupd (by simp) fun _ ↦ rfl
  | idleTimeout =>
      have hupd := sweepIdleTimeout_updates p.settings p.snapshot σ.shared.db
      exact .of_whenDue _ hupd (by simp) fun _ ↦ rfl
  | archiveTimeout =>
      obtain ⟨es, hes, hupd⟩ := sweepArchiveTimeout_updates p.settings p.snapshot σ.shared.db
      refine .of_whenDue _ hupd (fun e he ↦ ?_) fun _ ↦ rfl
      rcases hes e he with ⟨_, rfl⟩ | ⟨_, _, _, rfl⟩ <;> rfl
  | stopTimeout =>
      obtain ⟨es, hes, hupd⟩ := sweepStopTimeout_updates p.settings p.snapshot σ.shared.db
      refine .of_whenDue _ hupd (fun e he ↦ ?_) fun r ↦ ?_
      · obtain ⟨_, rfl⟩ := hes e he
        rfl
      · dsimp only
        split <;> rfl
  | events count => exact .of_updates _ (.elsewhere rfl rfl) (by simp) fun _ _ _ h ↦ h
  | outbox batch => exact .of_updates _ (.elsewhere rfl rfl) (by simp) fun _ _ _ h ↦ h
  | turnResults batch => exact .of_updates _ (.elsewhere rfl rfl) (by simp) fun _ _ _ h ↦ h

theorem Creates.announces {σ : SystemState} {db' : Database} {req : CreateRequest}
    {predecessor : Option SessionId} (h : Creates req predecessor σ.shared.db db')
    (a : SystemAction) : Announces σ db' a := by
  obtain ⟨p, hwritten⟩ := h.written
  refine .silent _ (by simp [hwritten, Envelope.isNotice]) fun sid hdies ↦ ?_
  obtain ⟨r, r', hr, hr', hlive, hdead⟩ := hdies
  rw [h.rows, hr] at hr'
  split at hr'
  · cases hr'
    cases hdead
  · cases hr'
    have hsame : r.status.isDead = true := by
      split at hdead
      · exact hdead
      · exact hdead
    rw [hlive] at hsame
    cases hsame

/-- The failed creation is the only session that dies in its transaction. -/
theorem Updates.failCreation_dies {sid : SessionId} {reason : StatusReason}
    {rows : List SessionId} {row : SessionRow}
    (h : Updates (fun s r ↦ (SessionUpdate.only sid (fun r ↦
      { r with status := .failed, statusReason := some reason }) s r).released sid rows s) es db db')
    (hrow : db.session? sid = some row) (hs : row.status = .creating) (s : SessionId) :
    Dies db db' s ↔ s = sid := by
  rw [h.dies_iff]
  constructor
  · rintro ⟨r, hr, hlive, hdead⟩
    by_contra hne
    rw [SessionRow.released_status, SessionUpdate.only, if_neg hne, hlive] at hdead
    cases hdead
  · rintro rfl
    refine ⟨row, hrow, by rw [hs]; rfl, ?_⟩
    rw [SessionRow.released_status, SessionUpdate.only, if_pos rfl]
    rfl

/-- Recovery lets a session die that is as recovery read it. -/
theorem Updates.recover_dies {sid : SessionId} {version : ℕ} {status : Status}
    {reason : StatusReason} (hstatus : status = .failed ∨ status = .orphaned)
    (h : Updates (.only sid fun r ↦
      if r.lifecycleVersion = version ∧ r.status ∈ [.running, .idle, .resuming] then
        { r with status := status, statusReason := some reason } else r) es db db')
    (s : SessionId) :
    Dies db db' s ↔ s = sid ∧ ∃ r, db.session? sid = some r ∧ r.lifecycleVersion = version ∧
      r.status ∈ [.running, .idle, .resuming] := by
  rw [h.dies_iff]
  constructor
  · rintro ⟨r, hr, hlive, hdead⟩
    unfold SessionUpdate.only at hdead
    split at hdead
    · rename_i hs
      subst hs
      dsimp only at hdead
      split at hdead
      · rename_i hguard
        exact ⟨rfl, r, hr, hguard⟩
      · rw [hlive] at hdead
        cases hdead
    · rw [hlive] at hdead
      cases hdead
  · rintro ⟨rfl, r, hr, hguard⟩
    refine ⟨r, hr, ?_, ?_⟩
    · have hs := hguard.2
      simp only [List.mem_cons, List.not_mem_nil, or_false] at hs
      rcases hs with hs | hs | hs <;> rw [hs] <;> rfl
    · rw [SessionUpdate.only, if_pos rfl, if_pos hguard]
      rcases hstatus with rfl | rfl <;> rfl

theorem commit_announces {σ : SystemState} {db' : Database} {a : SystemAction}
    (h : Commit σ db' a) : Announces σ db' a := by
  cases h with
  | elsewhere _ h => exact .of_updates a h (by simp) fun _ _ _ hlive ↦ hlive
  | touch _ hrow hlive hes h =>
      refine .of_only a h (fun e he ↦ ?_) fun _ _ ↦ rfl
      obtain ⟨job, rfl⟩ := hes e he
      rfl
  | record _ h =>
      refine .of_only a h (by simp) fun r hlive ↦ ?_
      split
      · exact hlive
      · exact hlive
  | bind _ _ _ h => exact .of_only a h (by simp) fun _ hlive ↦ hlive
  | repair _ hf _ h =>
      refine .of_only a h (by simp) fun r hlive ↦ ?_
      obtain ⟨reason, attempts, heq, -⟩ := hf r
      rw [heq]
      exact hlive
  | stop hsaga =>
      obtain ⟨sess, -, -, h⟩ := runStopSaga_updates hsaga
      exact .of_only _ h (by simp [Envelope.isNotice]) fun _ _ ↦ rfl
  | archive hsaga =>
      obtain ⟨sess, es, -, -, hes, h⟩ := runArchiveSaga_updates hsaga
      refine .of_only _ h (fun e he ↦ ?_) fun _ _ ↦ rfl
      rcases hes e he with rfl | ⟨_, -, rfl⟩ <;> rfl
  | resume hsaga =>
      obtain ⟨sess, -, -, h⟩ := runResumeSaga_updates hsaga
      exact .of_only _ h (by simp [Envelope.isNotice]) fun _ _ ↦ rfl
  | restart hsaga =>
      obtain ⟨sess, -, -, h⟩ := runRestartSaga_updates hsaga
      exact .of_only _ h (by simp [Envelope.isNotice]) fun _ _ ↦ rfl
  | confirmStop _ _ _ h => exact .of_only a h (by simp) fun _ _ ↦ rfl
  | resumed _ _ h => exact .of_only a h (by simp) fun _ _ ↦ rfl
  | create hp h => exact h.announces _
  | failCreation hp hstage hrow hs h =>
      refine .failCreation hp hrow hs (h.get hrow) ?_ (h.failCreation_dies hrow hs) h.written
      rw [SessionRow.released_status, SessionUpdate.only, if_pos rfl]
  | markRunning hp hrow hs h =>
      refine .markRunning hp hrow hs (h.get hrow) ?_ (h.not_dies fun s r _ hlive ↦ ?_) h.written
      · rw [SessionUpdate.only, if_pos rfl]
      · unfold SessionUpdate.only
        split
        · rfl
        · exact hlive
  | refuse hp hstage hr hes h =>
      obtain ⟨hget, -, hresuming⟩ := resumingRow?_eq_some.mp hr
      refine .refuse hp hstage hr (h.only_dies hget (by rw [hresuming]; rfl) rfl) ?_
      rw [h.written]
      exact hes
  | orphan hp hstage hr h =>
      obtain ⟨hget, -, hresuming⟩ := resumingRow?_eq_some.mp hr
      refine .orphan hp hstage (fun s ↦ ?_) h.written
      rw [h.only_dies hget (by rw [hresuming]; rfl) rfl, hr]
      simp
  | spurious hp hstage hr h =>
      refine .orphan hp hstage (fun s ↦ ?_) h.written
      rw [hr]
      simpa using h.not_dies (fun _ _ _ hlive ↦ hlive) s
  | recover hp hverdict hstatus _ h =>
      exact .recover hp hverdict (h.recover_dies hstatus) h.written
  | sweep hp _ hdb =>
      subst hdb
      exact sweep_announces _

theorem step_announces {σ τ : SystemState} {a : SystemAction} (h : system.step σ a = some τ) :
    Announces σ τ.shared.db a :=
  commit_announces (step_commit h)

end Discode
