import Discode.Conversations
import Discode.Notices

/-!
# Takeovers

The heir of a session continues its conversation, so the predecessor has to stay out of the
way.  The only record of the takeover is the `superseded` mark on the predecessor.  While
the mark is honoured, two sessions that are alive never share a conversation; the resume saga
and two sweeps of the janitor do not look at it.
-/

set_option autoImplicit false

namespace Discode

open ProcessPool (Machine)

def Alive (db : Database) (sid : SessionId) : Prop :=
  ∃ r, db.session? sid = some r ∧ r.status ∈ [.creating, .resuming, .running, .idle]

/-- `failed` or `orphaned`, from which a session does not return. -/
def Lost (db : Database) (sid : SessionId) : Prop :=
  ∃ r, db.session? sid = some r ∧ r.status.isDead = true

/-- The session carries the mark of an heir that may still be alive. -/
def HeldBack (db : Database) (sid : SessionId) : Prop :=
  ∃ r heir, db.session? sid = some r ∧ r.statusReason = some (.superseded heir) ∧ ¬ Lost db heir

/-- The step leaves a session that is held back alone: it is not resumed, not stopped for its
age, and its mark is not replaced by one of the drift sweep. -/
def HonoursMarks (σ : SystemState) : SystemAction → Prop
  | .env (.resume sid _ _) => ¬ HeldBack σ.shared.db sid
  | .exec pid .sweep => ∀ p, σ.procs pid = some (.sweep p) → p.kind = .stopTimeout →
      ∀ sid r, σ.shared.db.session? sid = some r →
        p.snapshot.due (stopDue p.settings p.snapshot) sid r = true → ¬ HeldBack σ.shared.db sid
  | .exec pid (.drift a) => ∀ p sid r, σ.procs pid = some (.drift p) → p.flagged a = some sid →
      σ.shared.db.session? sid = some r → r.threadId = none → ¬ HeldBack σ.shared.db sid
  | _ => True

/-- Every heir is lost or its predecessor still carries the mark. -/
def HeirsMarked (w : World) : Prop :=
  ∀ sid heir, TookOver w.log sid heir → Lost w.db heir ∨ Marked w.db sid heir

theorem Marked.not_lost {db : Database} {sid heir : SessionId} (h : Marked db sid heir) :
    ¬ Lost db sid := by
  rintro ⟨q, hq, hdead⟩
  obtain ⟨r, hr, hs, -⟩ := h
  cases hr.symm.trans hq
  rw [hs] at hdead
  cases hdead

theorem Marked.not_alive {db : Database} {sid heir : SessionId} (h : Marked db sid heir) :
    ¬ Alive db sid := by
  rintro ⟨q, hq, halive⟩
  obtain ⟨r, hr, hs, -⟩ := h
  cases hr.symm.trans hq
  rw [hs] at halive
  simp at halive

theorem Marked.unique {db : Database} {sid heir heir' : SessionId} (h : Marked db sid heir)
    (h' : Marked db sid heir') : heir = heir' := by
  obtain ⟨r, hr, -, hreason⟩ := h
  obtain ⟨q, hq, -, hreason'⟩ := h'
  cases hr.symm.trans hq
  exact StatusReason.superseded.inj (Option.some.inj (hreason.symm.trans hreason'))

theorem Alive.not_lost {db : Database} {sid : SessionId} (h : Alive db sid) : ¬ Lost db sid := by
  rintro ⟨q, hq, hdead⟩
  obtain ⟨r, hr, halive⟩ := h
  cases hr.symm.trans hq
  cases hs : q.status <;> simp [hs, Status.isDead] at halive hdead

theorem Marked.heldBack {db : Database} {sid heir : SessionId} (h : Marked db sid heir)
    (hheir : ¬ Lost db heir) : HeldBack db sid := by
  obtain ⟨r, hr, -, hreason⟩ := h
  exact ⟨r, heir, hr, hreason, hheir⟩

/-! ## The mark is kept -/

variable {f : SessionUpdate} {es : List Envelope} {db db' : Database} {sid heir : SessionId}

theorem Updates.marked (h : Updates f es db db') (hm : Marked db sid heir)
    (hf : ∀ r, db.session? sid = some r → r.status = .archived →
      r.statusReason = some (.superseded heir) →
      (f sid r).status = .archived ∧ (f sid r).statusReason = some (.superseded heir)) :
    Marked db' sid heir := by
  obtain ⟨r, hr, hs, hreason⟩ := hm
  exact ⟨f sid r, h.get hr, hf r hr hs hreason⟩

/-- The update of a session that is not archived. -/
theorem Updates.marked_of_only {s : SessionId} {g : SessionRow → SessionRow}
    (h : Updates (.only s g) es db db') (hm : Marked db sid heir)
    (hs : ∀ r, db.session? s = some r → r.status ≠ .archived) : Marked db' sid heir := by
  refine h.marked hm fun r hr harch hreason ↦ ?_
  unfold SessionUpdate.only
  split
  · rename_i heq
    exact absurd harch (hs r (heq ▸ hr))
  · exact ⟨harch, hreason⟩

/-- The update of one session that keeps its status and its reason. -/
theorem Updates.marked_of_same {s : SessionId} {g : SessionRow → SessionRow}
    (h : Updates (.only s g) es db db') (hm : Marked db sid heir)
    (hg : ∀ r, (g r).status = r.status ∧ (g r).statusReason = r.statusReason) :
    Marked db' sid heir := by
  refine h.marked hm fun r _ harch hreason ↦ ?_
  unfold SessionUpdate.only
  split
  · exact ⟨(hg r).1.trans harch, (hg r).2.trans hreason⟩
  · exact ⟨harch, hreason⟩

theorem Updates.marked_of_whenDue {snapshot : Database} {p : SessionId → SessionRow → Bool}
    {g : SessionRow → SessionRow} (h : Updates (.whenDue snapshot p g) es db db')
    (hm : Marked db sid heir) (hp : ∀ s r, p s r = true → r.status ≠ .archived) :
    Marked db' sid heir := by
  refine h.marked hm fun r _ harch hreason ↦ ?_
  unfold SessionUpdate.whenDue
  split
  · rename_i hdue
    exact absurd harch (hp sid r (Bool.and_eq_true_iff.mp hdue).1)
  · exact ⟨harch, hreason⟩

theorem SessionRow.released_of_ne {failed : SessionId} {rows : List SessionId} {r : SessionRow}
    (hne : failed ≠ heir) (hreason : r.statusReason = some (.superseded heir)) (s : SessionId) :
    r.released failed rows s = r := by
  unfold SessionRow.released
  refine if_neg fun h ↦ hne ?_
  exact StatusReason.superseded.inj (Option.some.inj (h.2.2.symm.trans hreason))

theorem SessionRow.releasedAll_of_ne {released : SessionId → List SessionId}
    {failed : List (SessionId × SessionRow)} {r : SessionRow} (hne : ∀ e ∈ failed, e.1 ≠ heir)
    (hreason : r.statusReason = some (.superseded heir)) (s : SessionId) :
    r.releasedAll released failed s = r := by
  rw [SessionRow.releasedAll_eq, if_neg]
  rintro ⟨e, he, -, -, heq⟩
  exact hne e he (StatusReason.superseded.inj (Option.some.inj (heq.symm.trans hreason)))

/-- The creating watchdog releases the predecessors of the sessions it fails, no others. -/
theorem sweepCreatingWatchdog_marked (settings : Settings) (snapshot : Database)
    (released : SessionId → List SessionId) (hm : Marked db sid heir)
    (hheir : ¬ Lost (sweepCreatingWatchdog settings snapshot released db) heir) :
    Marked (sweepCreatingWatchdog settings snapshot released db) sid heir := by
  have hupd := sweepCreatingWatchdog_updates settings snapshot released db
  refine hupd.marked hm fun r _ harch hreason ↦ ?_
  have hsame : SessionUpdate.whenDue snapshot (stuckCreating settings snapshot) (fun r ↦
      { r with status := .failed, statusReason := some .creationTimeout }) sid r = r := by
    refine if_neg fun hdue ↦ ?_
    have hcreating := stuckCreating_status (Bool.and_eq_true_iff.mp hdue).1
    rw [harch] at hcreating
    cases hcreating
  rw [hsame, SessionRow.releasedAll_of_ne (fun e he heq ↦ hheir ?_) hreason]
  · exact ⟨harch, hreason⟩
  · subst heq
    obtain ⟨hget, hdue⟩ := KeyedTable.mem_select_iff.mp he
    refine ⟨_, hupd.get hget, ?_⟩
    rw [SessionRow.releasedAll_status, SessionUpdate.whenDue, if_pos hdue]
    rfl

theorem sweep_marked {σ : SystemState} {pid : ℕ} {p : Sweep}
    (hp : σ.procs pid = some (.sweep p)) (hok : HonoursMarks σ (.exec pid .sweep))
    (hm : Marked σ.shared.db sid heir) (hheir : ¬ Lost σ.shared.db heir)
    (hheir' : ¬ Lost (runSweep p.settings p.snapshot p.released σ.shared.db p.kind) heir) :
    Marked (runSweep p.settings p.snapshot p.released σ.shared.db p.kind) sid heir := by
  cases hk : p.kind with
  | creatingWatchdog =>
      rw [hk] at hheir'
      exact sweepCreatingWatchdog_marked _ _ _ hm hheir'
  | resumingWatchdog =>
      obtain ⟨q, hq, hupd⟩ := sweepResumingWatchdog_updates p.settings p.snapshot σ.shared.db
      refine hupd.marked_of_whenDue hm fun s r hr ↦ ?_
      rw [hq s r hr]
      exact fun h ↦ nomatch h
  | stoppingWatchdog =>
      obtain ⟨q, hq, hupd⟩ := sweepStoppingWatchdog_updates p.settings p.snapshot σ.shared.db
      refine hupd.marked_of_whenDue hm fun s r hr ↦ ?_
      rw [hq s r hr]
      exact fun h ↦ nomatch h
  | idleTimeout =>
      refine (sweepIdleTimeout_updates p.settings p.snapshot _).marked_of_whenDue hm fun s r hr ↦ ?_
      rw [(of_decide_eq_true hr).1]
      exact fun h ↦ nomatch h
  | archiveTimeout =>
      obtain ⟨es, -, hupd⟩ := sweepArchiveTimeout_updates p.settings p.snapshot σ.shared.db
      refine hupd.marked_of_whenDue hm fun s r hr ↦ ?_
      rw [(of_decide_eq_true hr).1]
      exact fun h ↦ nomatch h
  | stopTimeout =>
      obtain ⟨es, -, hupd⟩ := sweepStopTimeout_updates p.settings p.snapshot σ.shared.db
      refine hupd.marked hm fun r hr harch hreason ↦ ?_
      unfold SessionUpdate.whenDue
      split
      · rename_i hdue
        exact absurd (hm.heldBack hheir) (hok p hp hk sid r hr hdue)
      · exact ⟨harch, hreason⟩
  | heartbeatOrphans =>
      obtain ⟨q, hq, hupd⟩ :=
        sweepRunnerHeartbeatOrphans_updates p.settings p.snapshot σ.shared.db
      refine hupd.marked_of_whenDue hm fun s r hr harch ↦ ?_
      have hs := hq s r hr
      rw [harch] at hs
      simp at hs
  | events count => exact hm
  | outbox batch => exact hm
  | turnResults batch => exact hm

/-- The update of a session whose row is not archived. -/
theorem Updates.marked_of_row {s : SessionId} {g : SessionRow → SessionRow} {row : SessionRow}
    (h : Updates (.only s g) es db db') (hm : Marked db sid heir)
    (hrow : db.session? s = some row) (hs : row.status ≠ .archived) : Marked db' sid heir := by
  refine h.marked_of_only hm fun r hr ↦ ?_
  cases hrow.symm.trans hr
  exact hs

theorem Updates.marked_of_resuming {s : SessionId} {version : ℕ} {g : SessionRow → SessionRow}
    {row : SessionRow} (h : Updates (.only s g) es db db') (hm : Marked db sid heir)
    (hrow : resumingRow? db s version = some row) : Marked db' sid heir := by
  obtain ⟨hget, -, hs⟩ := resumingRow?_eq_some.mp hrow
  refine h.marked_of_row hm hget ?_
  rw [hs]
  exact fun h ↦ nomatch h

/-- A create saga takes over no session that is marked already. -/
theorem Creates.marked {req : CreateRequest} {predecessor : Option SessionId}
    (h : Creates req predecessor db db') (hm : Marked db sid heir) : Marked db' sid heir := by
  obtain ⟨r, hr, harch, hreason⟩ := hm
  have hne : sid ≠ req.sessionId := fun heq ↦
    Option.some_ne_none r (hr.symm.trans (heq ▸ h.fresh))
  have hget := h.rows sid
  rw [if_neg hne, hr, Option.map_some, if_neg] at hget
  · exact ⟨r, hget, harch, hreason⟩
  · intro hpred
    obtain ⟨q, hq, hresumes⟩ := h.predecessor sid hpred.symm
    cases hr.symm.trans hq
    simp [CreateRequest.resumes, hreason, StatusReason.isSuperseded] at hresumes

/-- A failed creation releases its own predecessors only. -/
theorem Updates.marked_of_failCreation {s : SessionId} {reason : StatusReason}
    {rows : List SessionId} {row : SessionRow}
    (h : Updates (fun s' r ↦ (SessionUpdate.only s (fun r ↦
      { r with status := .failed, statusReason := some reason }) s' r).released s rows s') es db db')
    (hm : Marked db sid heir) (hrow : db.session? s = some row) (hs : row.status = .creating)
    (hheir : ¬ Lost db' heir) : Marked db' sid heir := by
  refine h.marked hm fun r hr harch hreason ↦ ?_
  have hne : sid ≠ s := fun heq ↦ by
    cases hrow.symm.trans (heq ▸ hr)
    rw [harch] at hs
    cases hs
  rw [SessionUpdate.only, if_neg hne, SessionRow.released_of_ne ?_ hreason]
  · exact ⟨harch, hreason⟩
  · rintro rfl
    refine hheir ⟨_, h.get hrow, ?_⟩
    rw [SessionRow.released_status, SessionUpdate.only, if_pos rfl]
    rfl

/-- Recovery leaves archived sessions alone. -/
theorem Updates.marked_of_recover {s : SessionId} {version : ℕ} {status : Status}
    {reason : StatusReason} (h : Updates (.only s fun r ↦
      if r.lifecycleVersion = version ∧ r.status ∈ [.running, .idle, .resuming] then
        { r with status := status, statusReason := some reason } else r) es db db')
    (hm : Marked db sid heir) : Marked db' sid heir := by
  refine h.marked hm fun r _ harch hreason ↦ ?_
  unfold SessionUpdate.only
  split
  · dsimp only
    rw [if_neg]
    · exact ⟨harch, hreason⟩
    · rw [harch]
      rintro ⟨-, hs⟩
      simp at hs
  · exact ⟨harch, hreason⟩

/-- A step that honours the marks releases no predecessor of an heir that is not lost. -/
theorem commit_marked {σ : SystemState} {a : SystemAction} (h : Commit σ db' a)
    (hok : HonoursMarks σ a) (hm : Marked σ.shared.db sid heir)
    (hheir : ¬ Lost σ.shared.db heir) (hheir' : ¬ Lost db' heir) : Marked db' sid heir := by
  cases h with
  | elsewhere _ h => exact h.marked hm fun _ _ hs hreason ↦ ⟨hs, hreason⟩
  | spurious _ _ _ h => exact h.marked hm fun _ _ hs hreason ↦ ⟨hs, hreason⟩
  | touch _ hrow hlive _ h =>
      refine h.marked_of_row hm hrow fun harch ↦ ?_
      rw [harch] at hlive
      cases hlive
  | record _ h =>
      refine h.marked_of_same hm fun r ↦ ?_
      split <;> exact ⟨rfl, rfl⟩
  | bind _ _ _ h => exact h.marked_of_same hm fun _ ↦ ⟨rfl, rfl⟩
  | repair _ hf hflag h =>
      rename_i s f
      refine h.marked hm fun r hr harch hreason ↦ ?_
      unfold SessionUpdate.only
      split
      · rename_i heq
        obtain ⟨reason, attempts, hrow, -⟩ := hf r
        refine ⟨by rw [hrow]; exact harch, ?_⟩
        by_contra hne
        rw [← hreason] at hne
        obtain ⟨hthread, pid, p, b, rfl, hp, hflagged⟩ := hflag r (by rw [hreason]; rfl) hne
        exact hok p s r hp hflagged (heq ▸ hr) hthread (heq ▸ hm.heldBack hheir)
      · exact ⟨harch, hreason⟩
  | stop hsaga =>
      obtain ⟨sess, hsess, hs, h⟩ := runStopSaga_updates hsaga
      refine h.marked_of_row hm hsess fun harch ↦ ?_
      rw [harch] at hs
      simp at hs
  | archive hsaga =>
      obtain ⟨sess, es, hsess, hs, -, h⟩ := runArchiveSaga_updates hsaga
      refine h.marked_of_row hm hsess fun harch ↦ ?_
      rw [harch] at hs
      simp at hs
  | resume hsaga =>
      obtain ⟨sess, hsess, hs, h⟩ := runResumeSaga_updates hsaga
      refine h.marked hm fun r hr harch hreason ↦ ?_
      unfold SessionUpdate.only
      split
      · rename_i heq
        exact absurd (heq ▸ hm.heldBack hheir) hok
      · exact ⟨harch, hreason⟩
  | restart hsaga =>
      obtain ⟨sess, hsess, hs, h⟩ := runRestartSaga_updates hsaga
      refine h.marked_of_row hm hsess fun harch ↦ ?_
      rw [harch] at hs
      simp at hs
  | confirmStop _ hrow hs h =>
      refine h.marked_of_row hm hrow fun harch ↦ ?_
      rw [harch] at hs
      cases hs
  | create hp h => exact h.marked hm
  | failCreation hp hstage hrow hs h => exact h.marked_of_failCreation hm hrow hs hheir'
  | markRunning hp hrow hs h =>
      refine h.marked_of_row hm hrow fun harch ↦ ?_
      rw [harch] at hs
      cases hs
  | refuse hp hstage hr hes h => exact h.marked_of_resuming hm hr
  | resumed _ hr h => exact h.marked_of_resuming hm hr
  | orphan hp hstage hr h => exact h.marked_of_resuming hm hr
  | recover hp hverdict hstatus hreason' h => exact h.marked_of_recover hm
  | sweep hp _ hdb =>
      subst hdb
      exact sweep_marked hp hok hm hheir hheir'

/-! ## Runs -/

theorem lost_step {σ τ : SystemState} {a : SystemAction} (h : SystemReachable σ)
    (hs : system.step σ a = some τ) (hlost : Lost σ.shared.db sid) : Lost τ.shared.db sid := by
  obtain ⟨r, hr, hdead⟩ := hlost
  obtain ⟨-, -, -, hfinal⟩ := status_changes_follow_table h hs sid r hr
  have hterm : r.status = .failed ∨ r.status = .orphaned := by
    simpa [Status.isDead] using hdead
  obtain ⟨r', hr', hsame⟩ := hfinal hterm τ .refl
  exact ⟨r', hr', by rw [hsame]; exact hdead⟩

/-- A takeover is the commit of a create saga. -/
theorem CreateSaga.step_takeover {pid : ℕ} {w w' : World} {p : CreateSaga}
    {q : Option CreateSaga} {a : CreateSagaAction} (h : p.step pid w a = some (w', q))
    (htook : TookOver w'.log sid heir) : TookOver w.log sid heir ∨
      heir = p.request.sessionId ∧ Creates p.request (some sid) w.db w'.db := by
  cases a with
  | acquire =>
      simp only [step] at h
      split at h
      · split at h <;> cases h
        exact .inl htook
      · cases h
  | count =>
      simp only [step] at h
      split at h
      · split at h <;> cases h <;> exact .inl htook
      · cases h
  | beginSelect =>
      simp only [step] at h
      split at h <;> cases h
      exact .inl htook
  | commit predecessor =>
      simp only [step] at h
      split at h
      · obtain ⟨db, hdb, he⟩ := Option.map_eq_some_iff.mp h
        cases predecessor with
        | none =>
            cases he
            exact .inl htook
        | some p' =>
            cases he
            obtain ⟨token, hmem⟩ := htook
            rcases List.mem_cons.mp hmem with heq | hold
            · cases heq
              exact .inr ⟨rfl, createSession_creates hdb⟩
            · exact .inl ⟨token, hold⟩
      · cases h

theorem step_takeover {σ τ : SystemState} {a : SystemAction} (h : system.step σ a = some τ)
    (htook : TookOver τ.shared.log sid heir) : TookOver σ.shared.log sid heir ∨
      ∃ req, heir = req.sessionId ∧ Creates req (some sid) σ.shared.db τ.shared.db := by
  rcases step_world h with ⟨e, rfl, he⟩ | ⟨n, rfl, hw⟩ | ⟨pid, b, p, q, rfl, hp, hb⟩
  · left
    rcases envStep_log he with hlog | ⟨s, guildId, row, db, -, -, -, hw⟩
    · exact hlog ▸ htook
    · obtain ⟨token, hmem⟩ := htook
      rw [hw] at hmem
      rcases List.mem_cons.mp hmem with heq | hold
      · cases heq
      · exact ⟨token, hold⟩
  · exact .inl (hw ▸ htook)
  · generalize τ.shared = w at hb htook ⊢
    obtain ⟨new, hnew, -, hemit⟩ := execStep_emits hb
    have htook' := htook
    obtain ⟨token, hmem⟩ := htook'
    rw [hnew] at hmem
    rcases List.mem_append.mp hmem with hmem | hold
    · obtain ⟨s, snapshot, db, rfl, -⟩ := hemit _ hmem
      cases execStep_cases hb with
      | crash => exact .inl htook
      | createSaga hsaga =>
          rcases CreateSaga.step_takeover hsaga htook with hold | ⟨heq, hcreates⟩
          · exact .inl hold
          · exact .inr ⟨_, heq, hcreates⟩
    · exact .inl ⟨token, hold⟩

/-- The step lemma: a takeover marks the predecessor, and nothing else releases it. -/
theorem heirsMarked_step {σ τ : SystemState} {a : SystemAction} (hreach : SystemReachable σ)
    (h : HeirsMarked σ.shared) (hok : HonoursMarks σ a) (hs : system.step σ a = some τ) :
    HeirsMarked τ.shared := by
  intro sid heir htook
  rcases step_takeover hs htook with hold | ⟨req, rfl, hcreates⟩
  · by_cases hlost : Lost τ.shared.db heir
    · exact .inl hlost
    · right
      have hnot : ¬ Lost σ.shared.db heir := fun hl ↦ hlost (lost_step hreach hs hl)
      have hmarked := (h sid heir hold).resolve_left hnot
      exact commit_marked (step_commit hs) hok hmarked hnot hlost
  · right
    obtain ⟨r, hr, hresumes⟩ := hcreates.predecessor sid rfl
    have hne : sid ≠ req.sessionId :=
      fun heq ↦ Option.some_ne_none r (hr.symm.trans (heq ▸ hcreates.fresh))
    have hget := hcreates.rows sid
    rw [if_neg hne, hr, Option.map_some, if_pos rfl] at hget
    have harch : r.status = .archived := by
      simp only [CreateRequest.resumes, decide_eq_true_eq] at hresumes
      exact hresumes.2.2.2.2.2.1
    exact ⟨_, hget, harch, rfl⟩

theorem heirsMarked {σ : SystemState}
    (h : system.ReachableWhen HonoursMarks FreshWorld σ) : HeirsMarked σ.shared := by
  refine h.invariant (fun w hw ↦ ?_) fun _ _ _ hσ hinv hok hs ↦
    heirsMarked_step hσ.reachable hinv hok hs
  obtain ⟨settings, redactor, rfl⟩ := hw
  rintro sid heir ⟨token, hmem⟩
  cases hmem

/-- Down to a session that is not lost, a line of heirs is a line of marks. -/
theorem HeirsMarked.line {w : World} (h : HeirsMarked w) {root : SessionId}
    (hstems : StemsFrom w.log root sid) (hsid : ¬ Lost w.db sid) :
    Relation.ReflTransGen (Marked w.db) root sid := by
  induction hstems with
  | refl => exact .refl
  | tail hpre htook ih =>
      rename_i p s
      have hmark := (h p s htook).resolve_left hsid
      exact (ih hmark.not_lost).tail hmark

theorem Alive.last {w : World} {s s' : SessionId} (h : Alive w.db s)
    (hline : Relation.ReflTransGen (Marked w.db) s s') : s' = s := by
  rcases hline.cases_head with heq | ⟨heir, hmark, -⟩
  · exact heq.symm
  · exact absurd h hmark.not_alive

/-- Of all sessions that stem from one, at most one is alive. -/
theorem HeirsMarked.alive_unique {w : World} (h : HeirsMarked w) {root s s' : SessionId}
    (hs : StemsFrom w.log root s) (hs' : StemsFrom w.log root s') (halive : Alive w.db s)
    (halive' : Alive w.db s') : s = s' := by
  have hline := h.line hs halive.not_lost
  have hline' := h.line hs' halive'.not_lost
  have hunique : Relator.RightUnique (Marked w.db) := fun _ _ _ hm hm' ↦ hm.unique hm'
  rcases Relation.ReflTransGen.total_of_right_unique hunique hline hline' with hle | hle
  · exact (halive.last hle).symm
  · exact halive'.last hle

/-! ## Shared conversations -/

/-- The token is in the row of the session or in a create job for it that is in transit or
running. -/
inductive HoldsConversation (σ : SystemState) (sid : SessionId) (t : Token) : Prop where
  | column {r : SessionRow} (hr : σ.shared.db.session? sid = some r)
      (ht : r.toolResumeToken = some t)
  | inTransit {job : CreateJobPayload} (hjob : σ.shared.Transports (.createSession job))
      (hsid : job.sessionId = sid) (ht : job.resumeToken = some t)
  | running {pid : ℕ} {j : CreateJob} (hj : σ.procs pid = some (.createJob j))
      (hsid : j.payload.sessionId = sid) (ht : j.payload.resumeToken = some t)

theorem HoldsConversation.stems {σ : SystemState} {t : Token} (hσ : SystemReachable σ)
    (h : HoldsConversation σ sid t) :
    ∃ root, t.root = some root ∧ StemsFrom σ.shared.log root sid := by
  have hann := stems_annotated hσ
  cases h with
  | @column r hr ht =>
      refine hann.inv.2.column sid r.core ?_ t ht
      rw [Database.core?, hr]
      rfl
  | inTransit hjob hsid ht => exact hsid ▸ hann.inv.2.job _ hjob t ht
  | running hj hsid ht => exact hsid ▸ (hann.assert _ _ hj).2.1 t ht

/-- In every run that honours the marks, no two sessions that are alive hold one token, no
session is alive together with one that took it over, and of all sessions that stem from one
by takeovers at most one is alive. -/
theorem one_session_per_conversation {σ : SystemState}
    (h : system.ReachableWhen HonoursMarks FreshWorld σ) :
    (∀ s s' t, Alive σ.shared.db s → Alive σ.shared.db s' → HoldsConversation σ s t →
      HoldsConversation σ s' t → s = s') ∧
    (∀ sid heir, TookOver σ.shared.log sid heir → Alive σ.shared.db heir →
      ¬ Alive σ.shared.db sid) ∧
    ∀ root s s', StemsFrom σ.shared.log root s → StemsFrom σ.shared.log root s' →
      Alive σ.shared.db s → Alive σ.shared.db s' → s = s' := by
  have hmarked := heirsMarked h
  refine ⟨?_, ?_, fun root s s' ↦ hmarked.alive_unique⟩
  · intro s s' t halive halive' hholds hholds'
    obtain ⟨root, hroot, hstems⟩ := hholds.stems h.reachable
    obtain ⟨root', hroot', hstems'⟩ := hholds'.stems h.reachable
    obtain rfl : root = root' := Option.some.inj (hroot.symm.trans hroot')
    exact hmarked.alive_unique hstems hstems' halive halive'
  · intro sid heir htook halive
    exact ((hmarked sid heir htook).resolve_left halive.not_lost).not_alive

/-- The owner opens session 1, whose tool starts conversation `t-1`, archives it and starts
session 2 under the same name; the runner creates session 2 with the token. -/
def handoverRun : List SystemAction :=
  openRun 0 1 7 (pyStr "demo") 1 none (some (pyStr "t-1")) ++ [.env (.archive 1 1)] ++
    takeoverRun ++ relayRun 4 .bot 3 ++
    [.env (.readNew (.runnerJobs (some 5)) 10), .spawn (.runnerJob 5 3),
      .exec 5 (.createJob (.lockRow false)), .exec 5 (.createJob (.getAdapter false none)),
      .exec 5 (.createJob .commit)]

def handedOverState : SystemState :=
  (system.run (.start deployment) handoverRun).get (by decide +kernel)

def handedToken : Token := ⟨pyStr "t-1", .minted 1⟩

theorem one_session_per_conversation_handed_over :
    TookOver handedOverState.shared.log 1 2 ∧ Alive handedOverState.shared.db 2 ∧
      ¬ Alive handedOverState.shared.db 1 := by
  have hreach : system.ReachableWhen HonoursMarks FreshWorld handedOverState := by
    have hrun : system.run (.start deployment) handoverRun = some handedOverState :=
      (Option.some_get _).symm
    refine ⟨_, deployment_fresh, .of_run ?_ hrun⟩
    simp [handoverRun, takeoverRun, openRun, relayRun, HonoursMarks]
  have htook : TookOver handedOverState.shared.log 1 2 := ⟨some handedToken, by decide +kernel⟩
  obtain ⟨r, hr⟩ : ∃ r, handedOverState.shared.db.session? 2 = some r :=
    Option.isSome_iff_exists.mp (by decide +kernel)
  have hs : (handedOverState.shared.db.session? 2).map SessionRow.status = some .running := by
    decide +kernel
  rw [hr] at hs
  have halive : Alive handedOverState.shared.db 2 :=
    ⟨r, hr, by rw [Option.some.inj hs]; decide⟩
  exact ⟨htook, halive, (one_session_per_conversation hreach).2.1 1 2 htook halive⟩

/-- The owner resumes session 1 although session 2 took it over. -/
def sharedState : SystemState :=
  (system.step handedOverState (.env (.resume 1 1 none))).get (by decide +kernel)

theorem resumed_predecessor_shares_conversation :
    ¬ ∀ (σ : SystemState) (s s' p : SessionId) (t : Token), SystemReachable σ →
      Alive σ.shared.db s → Alive σ.shared.db s' → HoldsConversation σ s t →
      HoldsConversation σ s' t → .tookOver s p (some t) ∈ σ.shared.log → s = s' := by
  intro hclaim
  have hhanded : SystemReachable handedOverState :=
    Machine.reachable_of_run deployment_fresh (Option.some_get _).symm
  have hstep : system.step handedOverState (.env (.resume 1 1 none)) = some sharedState :=
    (Option.some_get _).symm
  have hreach : SystemReachable sharedState := hhanded.step trivial hstep
  obtain ⟨r, hr⟩ : ∃ r, sharedState.shared.db.session? 1 = some r :=
    Option.isSome_iff_exists.mp (by decide +kernel)
  obtain ⟨q, hq⟩ : ∃ q, sharedState.shared.db.session? 2 = some q :=
    Option.isSome_iff_exists.mp (by decide +kernel)
  have hpredecessor : (sharedState.shared.db.session? 1).map
      (fun r ↦ (r.status, r.toolResumeToken)) = some (.resuming, some handedToken) := by
    decide +kernel
  have hheir : (sharedState.shared.db.session? 2).map
      (fun r ↦ (r.status, r.toolResumeToken)) = some (.running, some handedToken) := by
    decide +kernel
  rw [hr] at hpredecessor
  rw [hq] at hheir
  obtain ⟨hresuming, htoken⟩ := Prod.mk.inj (Option.some.inj hpredecessor)
  obtain ⟨hrunning, htoken'⟩ := Prod.mk.inj (Option.some.inj hheir)
  have heq := hclaim sharedState 2 1 1 handedToken hreach
    ⟨q, hq, by rw [hrunning]; decide⟩ ⟨r, hr, by rw [hresuming]; decide⟩
    (.column hq htoken') (.column hr htoken) (by decide +kernel)
  cases heq

end Discode
