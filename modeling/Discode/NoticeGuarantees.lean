import Discode.Notices
import Discode.Transitions

/-!
# What users are told about dying sessions

Over whole runs: when a terminal notice goes with the death it reports, and when a death is
announced in the thread of the session.
-/

set_option autoImplicit false

namespace Discode

open ProcessPool (Machine)

/-! ## Terminal notices -/

/-- Every terminal notice of the step is about a session that the step lets die. -/
def HonestNotices (σ τ : SystemState) : Prop :=
  ∀ sid guildId threadId message thenArchive,
    .terminalNotice sid guildId threadId message thenArchive ∈
      σ.shared.db.written τ.shared.db → Dies σ.shared.db τ.shared.db sid

/-- The error branch of a resume job is taken while the session still resumes at the version
the job had read. -/
def OrphansResuming (σ : SystemState) : SystemAction → Prop
  | .exec pid (.resumeJob .orphan) => ∀ j row, σ.procs pid = some (.resumeJob j) →
      j.stage = .lost row →
      (resumingRow? σ.shared.db j.payload.sessionId row.lifecycleVersion).isSome
  | _ => True

theorem Report.terminal_dies {db db' : Database} {message : String} {sid : SessionId}
    {guildId : GuildId} {threadId : Option ThreadId} {text : String} {thenArchive : Bool}
    (h : Report (fun e ↦ .terminalNotice e.1 e.2.guildId e.2.threadId message true) db db')
    (hmem : .terminalNotice sid guildId threadId text thenArchive ∈ db.written db') :
    Dies db db' sid := by
  obtain ⟨rows, -, hwritten, hrows⟩ := h.deaths
  rw [hwritten] at hmem
  obtain ⟨⟨s, r⟩, hr, he⟩ := List.mem_map.mp hmem
  cases he
  exact ((hrows s r).mp hr).2

theorem step_resumeJob {σ τ : SystemState} {pid : ℕ} {a : ResumeJobAction}
    (h : system.step σ (.exec pid (.resumeJob a)) = some τ) :
    ∃ j q, σ.procs pid = some (.resumeJob j) ∧ j.step pid σ.shared a = some (τ.shared, q) := by
  obtain ⟨p, q, hp, hb, -⟩ := Machine.step_exec h
  generalize τ.shared = w at hb ⊢
  cases execStep_cases hb with
  | resumeJob hstep => exact ⟨_, _, hp, hstep⟩

theorem step_orphan {σ τ : SystemState} {pid : ℕ}
    (h : system.step σ (.exec pid (.resumeJob .orphan)) = some τ) :
    ∃ j row, σ.procs pid = some (.resumeJob j) ∧ j.stage = .lost row ∧
      τ.shared.db = orphanResume j.payload row σ.shared.db := by
  obtain ⟨j, q, hp, hstep⟩ := step_resumeJob h
  generalize τ.shared = w at hstep ⊢
  simp only [ResumeJob.step] at hstep
  split at hstep
  · rename_i row hstage
    cases hstep
    exact ⟨j, row, hp, hstage, rfl⟩
  · cases hstep

theorem orphanResume_written (p : LifecyclePayload) (row : SessionRow) (db : Database) :
    db.written (orphanResume p row db) = [.terminalNotice p.sessionId
      (p.guildId.getD row.guildId) row.threadId "Session resume failed." true] := by
  rcases orphanResume_updates p row db with ⟨-, hupd⟩ | ⟨r, -, hupd⟩
  · exact hupd.written
  · exact hupd.written

theorem orphanResume_dies {p : LifecyclePayload} {row : SessionRow} {db : Database} :
    Dies db (orphanResume p row db) p.sessionId ↔
      (resumingRow? db p.sessionId row.lifecycleVersion).isSome := by
  rcases orphanResume_updates p row db with ⟨hnone, hupd⟩ | ⟨r, hr, hupd⟩
  · rw [hnone]
    exact ⟨fun hdies ↦ absurd hdies (hupd.not_dies (fun _ _ _ hlive ↦ hlive) _),
      fun hsome ↦ nomatch hsome⟩
  · obtain ⟨hget, -, hs⟩ := resumingRow?_eq_some.mp hr
    rw [hr, hupd.only_dies hget (by rw [hs]; rfl) rfl]
    exact ⟨fun _ ↦ rfl, fun _ ↦ rfl⟩

theorem honestNotices_iff {σ τ : SystemState} {a : SystemAction}
    (h : system.step σ a = some τ) : HonestNotices σ τ ↔ OrphansResuming σ a := by
  constructor
  · intro hhonest
    unfold OrphansResuming
    split
    · intro j row hp hstage
      obtain ⟨j', row', hp', hstage', hdb⟩ := step_orphan h
      cases hp.symm.trans hp'
      cases hstage.symm.trans hstage'
      have hdies := hhonest j.payload.sessionId _ _ _ _ (by
        rw [hdb, orphanResume_written]
        exact List.mem_singleton_self _)
      rw [hdb] at hdies
      exact orphanResume_dies.mp hdies
    · trivial
  · intro hok sid guildId threadId message thenArchive hmem
    cases step_announces h with
    | silent _ hnotices => exact absurd (hnotices _ hmem) (by simp [Envelope.isNotice])
    | creatingWatchdog hreport =>
        obtain ⟨rows, -, hwritten, -⟩ := hreport.deaths
        rw [hwritten] at hmem
        obtain ⟨e, -, he⟩ := List.mem_map.mp hmem
        cases he
    | terminalSweep hreport => exact hreport.terminal_dies hmem
    | failCreation _ _ _ _ _ _ hwritten =>
        rw [hwritten] at hmem
        cases List.mem_singleton.mp hmem
    | markRunning _ _ _ _ _ _ hwritten =>
        rw [hwritten] at hmem
        cases List.mem_singleton.mp hmem
    | refuse _ _ _ hdies hwritten =>
        rcases hwritten with ⟨-, hnil⟩ | ⟨_, _, _, -, hwritten⟩
        · rw [hnil] at hmem
          cases hmem
        · rw [hwritten] at hmem
          cases List.mem_singleton.mp hmem
          exact (hdies _).mpr rfl
    | orphan hp hstage hdies hwritten =>
        rw [hwritten] at hmem
        cases List.mem_singleton.mp hmem
        exact (hdies _).mpr ⟨rfl, hok _ _ hp hstage⟩
    | recover _ _ _ hwritten =>
        rw [hwritten] at hmem
        cases hmem

/-- A run writes a terminal notice only with the death it reports, if and only if no resume
job takes its error branch after its session has changed. -/
theorem terminal_notices_are_honest (σ : SystemState) (as : List SystemAction) :
    system.Along (fun σ _ τ ↦ HonestNotices σ τ) σ as ↔
      system.Along (fun σ a _ ↦ OrphansResuming σ a) σ as :=
  Machine.along_congr (fun _ _ _ h ↦ honestNotices_iff h) as σ

/-- A resume job whose commit took effect without being acknowledged. -/
def unacknowledgedRun : List SystemAction :=
  openRun 0 1 7 (pyStr "demo") 1 none none ++
  [.env (.archive 1 1), .env (.resume 1 1 none)] ++ relayRun 3 .bot 3 ++
  [.env (.readNew (.runnerJobs (some 5)) 10), .spawn (.runnerJob 5 3),
    .exec 4 (.resumeJob .read), .exec 4 (.resumeJob (.revalidate false)),
    .exec 4 (.resumeJob (.mint none)), .exec 4 (.resumeJob (.commitFails true))]

def unacknowledgedState : SystemState :=
  (system.run (.start deployment) unacknowledgedRun).get (by decide +kernel)

/-- The session that a process resumes. -/
def Process.resumes? : Process → Option SessionId
  | .resumeJob j => some j.payload.sessionId
  | _ => none

theorem terminal_notice_for_running_session :
    ¬ ∀ (σ τ : SystemState) (a : SystemAction), SystemReachable σ →
      system.step σ a = some τ → HonestNotices σ τ := by
  intro hclaim
  have hreach : SystemReachable unacknowledgedState :=
    Machine.reachable_of_run deployment_fresh (Option.some_get _).symm
  obtain ⟨τ, hτ⟩ : ∃ τ, system.step unacknowledgedState (.exec 4 (.resumeJob .orphan)) = some τ :=
    Option.isSome_iff_exists.mp (by decide +kernel)
  have hok := (honestNotices_iff hτ).mp (hclaim _ _ _ hreach hτ)
  obtain ⟨j, row, hp, hstage, -⟩ := step_orphan hτ
  have hresuming := hok j row hp hstage
  have hsid : (unacknowledgedState.procs 4).bind Process.resumes? = some 1 := by
    decide +kernel
  rw [hp] at hsid
  have hsession : j.payload.sessionId = 1 := Option.some.inj hsid
  obtain ⟨r, hr⟩ := Option.isSome_iff_exists.mp hresuming
  obtain ⟨hget, -, hs⟩ := resumingRow?_eq_some.mp hr
  have hrunning : (unacknowledgedState.shared.db.session? 1).map SessionRow.status =
      some .running := by decide +kernel
  rw [hsession] at hget
  rw [hget, Option.map_some, hs] at hrunning
  cases hrunning

/-! ## Dying sessions -/

/-- The envelope tells the thread that the session is gone. -/
def Envelope.announces (sid : SessionId) (threadId : ThreadId) : Envelope → Bool
  | terminalNotice s _ t _ _ => s = sid ∧ t = some threadId
  | systemNotice s _ t noticeType _ =>
      s = sid ∧ t = some threadId ∧ noticeType = .sessionCreateFailed
  | _ => false

/-- Every session with a thread that dies in the step is announced there by the step. -/
def AnnouncedDeaths (σ τ : SystemState) : Prop :=
  ∀ sid r threadId, σ.shared.db.session? sid = some r → r.threadId = some threadId →
    Dies σ.shared.db τ.shared.db sid →
    ∃ e ∈ σ.shared.db.written τ.shared.db, e.announces sid threadId = true

/-- Who fails a session knows its thread: the payload of the create job and the row that the
resume job read carry the thread the session has now, and recovery fails no session that
has one. -/
def KnowsThread (σ : SystemState) : SystemAction → Prop
  | .exec pid (.createJob .fail) => ∀ j reason rows r threadId,
      σ.procs pid = some (.createJob j) → j.stage = .released reason rows →
      σ.shared.db.session? j.payload.sessionId = some r →
      r.status = .creating → r.threadId = some threadId → j.payload.threadId = some threadId
  | .exec pid (.resumeJob .refuse) => ∀ j row r threadId, σ.procs pid = some (.resumeJob j) →
      j.stage = .refused row →
      resumingRow? σ.shared.db j.payload.sessionId row.lifecycleVersion = some r →
      r.threadId = some threadId → row.threadId = some threadId
  | .exec pid (.resumeJob .orphan) => ∀ j row r threadId, σ.procs pid = some (.resumeJob j) →
      j.stage = .lost row →
      resumingRow? σ.shared.db j.payload.sessionId row.lifecycleVersion = some r →
      r.threadId = some threadId → row.threadId = some threadId
  | .exec pid (.recovery verdict) => verdict ≠ .recovered → ∀ sid row rest r,
      σ.procs pid = some (.recovery ((sid, row) :: rest)) → σ.shared.db.session? sid = some r →
      r.lifecycleVersion = row.lifecycleVersion → r.status ∈ [.running, .idle, .resuming] →
      r.threadId = none
  | _ => True

theorem step_fail {σ τ : SystemState} {pid : ℕ}
    (h : system.step σ (.exec pid (.createJob .fail)) = some τ) :
    ∃ j reason rows, σ.procs pid = some (.createJob j) ∧ j.stage = .released reason rows ∧
      τ.shared.db = failAndNotify j.payload reason rows σ.shared.db := by
  obtain ⟨p, q, hp, hb, -⟩ := Machine.step_exec h
  generalize τ.shared = w at hb ⊢
  cases execStep_cases hb with
  | @createJob j _ _ _ hstep =>
      simp only [CreateJob.step] at hstep
      split at hstep
      · rename_i reason rows hstage
        cases hstep
        exact ⟨j, reason, rows, hp, hstage, rfl⟩
      · cases hstep

theorem step_refuse {σ τ : SystemState} {pid : ℕ}
    (h : system.step σ (.exec pid (.resumeJob .refuse)) = some τ) :
    ∃ j row, σ.procs pid = some (.resumeJob j) ∧ j.stage = .refused row ∧
      τ.shared.db = refuseResume j.payload row σ.shared.db := by
  obtain ⟨j, q, hp, hstep⟩ := step_resumeJob h
  generalize τ.shared = w at hstep ⊢
  simp only [ResumeJob.step] at hstep
  split at hstep
  · rename_i row hstage
    cases hstep
    exact ⟨j, row, hp, hstage, rfl⟩
  · cases hstep

theorem failAndNotify_dies {p : CreateJobPayload} (reason : StatusReason)
    (rows : List SessionId) {db : Database} {r : SessionRow}
    (hr : db.session? p.sessionId = some r) (hs : r.status = .creating) :
    Dies db (failAndNotify p reason rows db) p.sessionId ∧
      db.written (failAndNotify p reason rows db) =
        [.systemNotice p.sessionId p.guildId p.threadId .sessionCreateFailed reason.text] := by
  rcases failAndNotify_updates p reason rows db with ⟨hno, -⟩ | ⟨r', hr', -, hupd⟩
  · exact absurd hs (hno r hr)
  · refine ⟨(hupd.dies_iff _).mpr ⟨r, hr, by rw [hs]; rfl, ?_⟩, hupd.written⟩
    rw [SessionRow.released_status, SessionUpdate.only, if_pos rfl]
    rfl

theorem refuseResume_dies {p : LifecyclePayload} {row r : SessionRow} {db : Database}
    (hr : resumingRow? db p.sessionId row.lifecycleVersion = some r) :
    Dies db (refuseResume p row db) p.sessionId ∧
      ∀ e ∈ db.written (refuseResume p row db), ∃ guildId threadId message,
        row.threadId = some threadId ∧
          e = .terminalNotice p.sessionId guildId (some threadId) message true := by
  obtain ⟨hget, -, hs⟩ := resumingRow?_eq_some.mp hr
  rcases refuseResume_updates p row db with ⟨hnone, -⟩ | ⟨r', es, -, hes, hupd⟩
  · rw [hr] at hnone
    cases hnone
  · refine ⟨(hupd.only_dies hget (by rw [hs]; rfl) rfl _).mpr rfl, fun e he ↦ ?_⟩
    rw [hupd.written] at he
    rcases hes with ⟨-, rfl⟩ | ⟨guildId, threadId, message, hthread, rfl⟩
    · cases he
    · exact ⟨guildId, threadId, message, hthread, List.mem_singleton.mp he⟩

theorem step_recovery {σ τ : SystemState} {pid : ℕ} {verdict : RecoveryVerdict}
    {sid : SessionId} {row : SessionRow} {rest : List (SessionId × SessionRow)}
    (h : system.step σ (.exec pid (.recovery verdict)) = some τ)
    (hp : σ.procs pid = some (.recovery ((sid, row) :: rest))) :
    τ.shared.db = recoverRow sid row verdict σ.shared.db := by
  obtain ⟨p, q, hp', hb, -⟩ := Machine.step_exec h
  cases hp.symm.trans hp'
  have hexec : some (σ.shared.setDb (recoverRow sid row verdict σ.shared.db),
      some (Process.recovery rest)) = some (τ.shared, q) := hb
  exact congrArg (fun x ↦ x.1.db) (Option.some.inj hexec).symm

theorem recoverRow_dies {sid : SessionId} {row r : SessionRow} {verdict : RecoveryVerdict}
    {db : Database} (hverdict : verdict ≠ .recovered) (hr : db.session? sid = some r)
    (hversion : r.lifecycleVersion = row.lifecycleVersion)
    (hs : r.status ∈ [.running, .idle, .resuming]) :
    Dies db (recoverRow sid row verdict db) sid ∧
      db.written (recoverRow sid row verdict db) = [] := by
  rcases recoverRow_updates sid row verdict db with ⟨hrec, -⟩ | ⟨status, _, hstatus, -, hupd⟩
  · exact absurd hrec hverdict
  · have hlive : r.status.isDead = false := by
      simp only [List.mem_cons, List.not_mem_nil, or_false] at hs
      rcases hs with hs | hs | hs <;> rw [hs] <;> rfl
    refine ⟨(hupd.only_dies hr hlive ?_ sid).mpr rfl, hupd.written⟩
    rw [if_pos ⟨hversion, hs⟩]
    rcases hstatus with rfl | rfl <;> rfl

/-- Sweeps know the rows they report. -/
theorem Report.announced {σ τ : SystemState} {notice : SessionId × SessionRow → Envelope}
    (h : Report notice σ.shared.db τ.shared.db)
    (hnotice : ∀ sid r threadId, r.threadId = some threadId →
      (notice (sid, r)).announces sid threadId = true) : AnnouncedDeaths σ τ := by
  intro sid r threadId hr hthread hdies
  obtain ⟨rows, -, hwritten, hrows⟩ := h.deaths
  have hmem : (sid, r) ∈ rows := (hrows sid r).mpr ⟨hr, hdies⟩
  exact ⟨notice (sid, r), hwritten ▸ List.mem_map_of_mem hmem, hnotice sid r threadId hthread⟩

theorem announcedDeaths_of_knowsThread {σ τ : SystemState} {a : SystemAction}
    (h : system.step σ a = some τ) (hok : KnowsThread σ a) : AnnouncedDeaths σ τ := by
  cases step_announces h with
  | silent _ _ hdeaths => exact fun sid _ _ _ _ hdies ↦ absurd hdies (hdeaths sid)
  | creatingWatchdog hreport =>
      exact hreport.announced fun _ _ _ ht ↦ decide_eq_true ⟨rfl, ht, rfl⟩
  | terminalSweep hreport => exact hreport.announced fun _ _ _ ht ↦ decide_eq_true ⟨rfl, ht⟩
  | @failCreation pid j message r r' hp hr hs _ _ hdies hwritten =>
      intro sid r₀ threadId hr₀ hthread hd
      obtain rfl := (hdies sid).mp hd
      obtain ⟨j', reason, rows, hp', hstage, -⟩ := step_fail h
      cases hp.symm.trans hp'
      cases hr.symm.trans hr₀
      have hknown := hok j reason rows r threadId hp hstage hr hs hthread
      rw [hwritten]
      exact ⟨_, List.mem_singleton_self _, decide_eq_true ⟨rfl, hknown, rfl⟩⟩
  | markRunning _ _ _ _ _ hdies => exact fun sid _ _ _ _ hd ↦ absurd hd (hdies sid)
  | @refuse pid j row r hp hstage hr hdies hwritten =>
      intro sid r₀ threadId hr₀ hthread hd
      obtain rfl := (hdies sid).mp hd
      cases (resumingRow?_eq_some.mp hr).1.symm.trans hr₀
      have hknown := hok j row r threadId hp hstage hr hthread
      rcases hwritten with ⟨hnone, -⟩ | ⟨_, _, _, hsome, hwritten⟩
      · rw [hnone] at hknown
        cases hknown
      · rw [hsome] at hknown
        rw [hwritten]
        exact ⟨_, List.mem_singleton_self _, decide_eq_true ⟨rfl, hknown⟩⟩
  | @orphan pid j row guildId hp hstage hdies hwritten =>
      intro sid r₀ threadId hr₀ hthread hd
      obtain ⟨rfl, hsome⟩ := (hdies sid).mp hd
      obtain ⟨r, hr⟩ := Option.isSome_iff_exists.mp hsome
      cases (resumingRow?_eq_some.mp hr).1.symm.trans hr₀
      have hknown := hok j row r₀ threadId hp hstage hr hthread
      rw [hwritten]
      exact ⟨_, List.mem_singleton_self _, decide_eq_true ⟨rfl, hknown⟩⟩
  | recover hp hverdict hdies _ =>
      intro sid r₀ threadId hr₀ hthread hd
      obtain ⟨rfl, r, hr, hversion, hs⟩ := (hdies sid).mp hd
      cases hr.symm.trans hr₀
      rw [hok hverdict _ _ _ r₀ hp hr hversion hs] at hthread
      cases hthread

theorem knowsThread_of_announcedDeaths {σ τ : SystemState} {a : SystemAction}
    (h : system.step σ a = some τ) (hannounced : AnnouncedDeaths σ τ) : KnowsThread σ a := by
  unfold KnowsThread
  split
  · intro j reason rows r threadId hp hstage hr hs hthread
    obtain ⟨j', reason', rows', hp', hstage', hdb⟩ := step_fail h
    cases hp.symm.trans hp'
    cases hstage.symm.trans hstage'
    obtain ⟨hdies, hwritten⟩ := failAndNotify_dies reason rows hr hs
    obtain ⟨e, he, hann⟩ := hannounced _ r threadId hr hthread (hdb ▸ hdies)
    rw [hdb, hwritten] at he
    cases List.mem_singleton.mp he
    exact (of_decide_eq_true hann).2.1
  · intro j row r threadId hp hstage hr hthread
    obtain ⟨j', row', hp', hstage', hdb⟩ := step_refuse h
    cases hp.symm.trans hp'
    cases hstage.symm.trans hstage'
    obtain ⟨hdies, hwritten⟩ := refuseResume_dies hr
    obtain ⟨hget, -, -⟩ := resumingRow?_eq_some.mp hr
    obtain ⟨e, he, hann⟩ := hannounced _ r threadId hget hthread (hdb ▸ hdies)
    rw [hdb] at he
    obtain ⟨_, t, _, ht, rfl⟩ := hwritten e he
    exact ht.trans (of_decide_eq_true hann).2
  · intro j row r threadId hp hstage hr hthread
    obtain ⟨j', row', hp', hstage', hdb⟩ := step_orphan h
    cases hp.symm.trans hp'
    cases hstage.symm.trans hstage'
    obtain ⟨hget, -, -⟩ := resumingRow?_eq_some.mp hr
    have hdies := orphanResume_dies.mpr (by rw [hr]; rfl)
    obtain ⟨e, he, hann⟩ := hannounced _ r threadId hget hthread (hdb ▸ hdies)
    rw [hdb, orphanResume_written] at he
    cases List.mem_singleton.mp he
    exact (of_decide_eq_true hann).2
  · intro hverdict sid row rest r hp hr hversion hs
    by_contra hthread
    obtain ⟨threadId, hthread⟩ := Option.ne_none_iff_exists'.mp hthread
    obtain ⟨hdies, hwritten⟩ := recoverRow_dies hverdict hr hversion hs
    rw [← step_recovery h hp] at hdies hwritten
    obtain ⟨e, he, -⟩ := hannounced sid r threadId hr hthread hdies
    rw [hwritten] at he
    cases he
  · trivial

/-- In a run every session with a thread that dies is announced there by the transaction that
lets it die, if and only if whoever fails a session knows its thread. -/
theorem deaths_are_announced (σ : SystemState) (as : List SystemAction) :
    system.Along (fun σ _ τ ↦ AnnouncedDeaths σ τ) σ as ↔
      system.Along (fun σ a _ ↦ KnowsThread σ a) σ as :=
  Machine.along_congr (fun _ _ _ h ↦
    ⟨knowsThread_of_announcedDeaths h, announcedDeaths_of_knowsThread h⟩) as σ

/-- A runner restarts after the workspace of a session was taken from the allowed roots. -/
def recoveringState : SystemState :=
  (system.step openedState (.spawn (.recovery 5))).get (by decide +kernel)

def deniedState : SystemState :=
  (system.step recoveringState (.exec 3 (.recovery .denied))).get (by decide +kernel)

theorem silent_death_in_recovery :
    ¬ ∀ (σ τ : SystemState) (a : SystemAction), SystemReachable σ →
      system.step σ a = some τ → AnnouncedDeaths σ τ := by
  intro hclaim
  have hreach : SystemReachable recoveringState :=
    openedState_reachable.step (a := .spawn (.recovery 5)) trivial (Option.some_get _).symm
  have hstep : system.step recoveringState (.exec 3 (.recovery .denied)) = some deniedState :=
    (Option.some_get _).symm
  obtain ⟨r, hr⟩ : ∃ r, recoveringState.shared.db.session? 1 = some r :=
    Option.isSome_iff_exists.mp (by decide +kernel)
  obtain ⟨r', hr'⟩ : ∃ r, deniedState.shared.db.session? 1 = some r :=
    Option.isSome_iff_exists.mp (by decide +kernel)
  have hbefore : (recoveringState.shared.db.session? 1).map (fun r ↦ (r.threadId, r.status)) =
      some (some 7, .running) := by decide +kernel
  have hafter : (deniedState.shared.db.session? 1).map SessionRow.status = some .failed := by
    decide +kernel
  have hwritten : recoveringState.shared.db.written deniedState.shared.db = [] := by
    decide +kernel
  rw [hr] at hbefore
  rw [hr'] at hafter
  obtain ⟨hthread, hrunning⟩ := Prod.mk.inj (Option.some.inj hbefore)
  have hfailed : r'.status = .failed := Option.some.inj hafter
  obtain ⟨e, he, -⟩ := hclaim _ _ _ hreach hstep 1 r 7 hr hthread
    ⟨r, r', hr, hr', by rw [hrunning]; rfl, by rw [hfailed]; rfl⟩
  rw [hwritten] at he
  cases he

end Discode
