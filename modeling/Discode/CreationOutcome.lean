import Discode.Bookkeeping
import Discode.Notices
import Discode.Transitions

/-!
# The outcome of a creation

Deliveries of a create job, the creation watchdog and the stop saga race for a session that
is being created.  Whoever takes it out of `creating` tells its outcome, and nobody else.
-/

set_option autoImplicit false

namespace Discode

open ProcessPool (Machine)

/-- `session_running` and `session_create_failed`. -/
def Envelope.isOutcome (sid : SessionId) : Envelope → Bool
  | systemNotice s _ _ _ _ => s = sid
  | _ => false

/-- The status that an outcome notice reports. -/
def NoticeType.status : NoticeType → Status
  | sessionRunning => .running
  | sessionCreateFailed => .failed

/-- The step takes the session from `creating` to `status`. -/
def EndsCreation (σ τ : SystemState) (sid : SessionId) (status : Status) : Prop :=
  ∃ r r', σ.shared.db.session? sid = some r ∧ r.status = .creating ∧
    τ.shared.db.session? sid = some r' ∧ r'.status = status

theorem step_outcomes {σ τ : SystemState} {a : SystemAction} (h : system.step σ a = some τ)
    {sid : SessionId} {guildId : GuildId} {threadId : Option ThreadId} {noticeType : NoticeType}
    {message : String} (hmem : .systemNotice sid guildId threadId noticeType message ∈
      σ.shared.db.written τ.shared.db) : EndsCreation σ τ sid noticeType.status ∧
    ((σ.shared.db.written τ.shared.db).filter (Envelope.isOutcome sid)).length = 1 := by
  cases step_announces h with
  | silent _ hnotices => exact absurd (hnotices _ hmem) (by simp [Envelope.isNotice])
  | creatingWatchdog hreport hdeaths =>
      obtain ⟨rows, hnodup, hwritten, hrows⟩ := hreport.deaths
      rw [hwritten] at hmem ⊢
      obtain ⟨⟨s, r⟩, hr, he⟩ := List.mem_map.mp hmem
      cases he
      obtain ⟨hget, hdies⟩ := (hrows s r).mp hr
      obtain ⟨hs, r', hr', hs'⟩ := hdeaths s r hget hdies
      refine ⟨⟨r, r', hget, hs, hr', hs'⟩, ?_⟩
      rw [List.filter_map, List.length_map, ← List.countP_eq_length_filter]
      have hcount : rows.countP (Envelope.isOutcome s ∘ fun e ↦ .systemNotice e.1 e.2.guildId
          e.2.threadId .sessionCreateFailed "creation_timeout") =
          (rows.map Prod.fst).count s := by
        rw [List.count, List.countP_map]
        exact List.countP_congr fun e _ ↦ by simp [Envelope.isOutcome]
      rw [hcount]
      exact List.count_eq_one_of_mem hnodup (List.mem_map_of_mem hr)
  | terminalSweep hreport =>
      obtain ⟨rows, -, hwritten, -⟩ := hreport.deaths
      rw [hwritten] at hmem
      obtain ⟨e, -, he⟩ := List.mem_map.mp hmem
      cases he
  | failCreation hp hr hs hr' hs' hdies hwritten =>
      rw [hwritten] at hmem ⊢
      cases List.mem_singleton.mp hmem
      refine ⟨⟨_, _, hr, hs, hr', hs'⟩, ?_⟩
      simp [Envelope.isOutcome]
  | markRunning hp hr hs hr' hs' hdies hwritten =>
      rw [hwritten] at hmem ⊢
      cases List.mem_singleton.mp hmem
      refine ⟨⟨_, _, hr, hs, hr', hs'⟩, ?_⟩
      simp [Envelope.isOutcome]
  | refuse _ _ _ _ hwritten =>
      rcases hwritten with ⟨-, hnil⟩ | ⟨_, _, _, -, hwritten⟩
      · rw [hnil] at hmem
        cases hmem
      · rw [hwritten] at hmem
        cases List.mem_singleton.mp hmem
  | orphan _ _ _ hwritten =>
      rw [hwritten] at hmem
      cases List.mem_singleton.mp hmem
  | recover _ _ _ hwritten =>
      rw [hwritten] at hmem
      cases hmem

theorem Envelope.eq_systemNotice_of_isOutcome {sid : SessionId} {e : Envelope}
    (h : e.isOutcome sid = true) : ∃ guildId threadId noticeType message,
      e = .systemNotice sid guildId threadId noticeType message := by
  cases e with
  | systemNotice s guildId threadId noticeType message =>
      obtain rfl := of_decide_eq_true h
      exact ⟨guildId, threadId, noticeType, message, rfl⟩
  | _ => cases h

/-- A session that left `creating` never returns to it. -/
theorem not_creating_again {σ τ : SystemState} (hσ : SystemReachable σ)
    (h : system.Reaches σ τ) {sid : SessionId} {r : SessionRow}
    (hr : σ.shared.db.session? sid = some r) (hs : r.status ≠ .creating) :
    ∃ r', τ.shared.db.session? sid = some r' ∧ r'.status ≠ .creating := by
  induction h with
  | refl => exact ⟨r, hr, hs⟩
  | tail hpre hst ih =>
      obtain ⟨b, -, hb⟩ := hst
      obtain ⟨r₁, hr₁, hs₁⟩ := ih
      have hcore := (step_advance (hσ.reaches hpre) hb).core sid
      rw [Database.core?, hr₁] at hcore
      obtain ⟨c, hc⟩ := hcore.exists_of_some
      obtain ⟨r₂, hr₂, rfl⟩ := Option.map_eq_some_iff.mp hc
      rw [hc] at hcore
      exact ⟨r₂, hr₂, hcore.not_creating hs₁⟩

/-- The commit of process `pid`, a create job, made the session run. -/
def MadeRunning (σ : SystemState) (pid : ℕ) (sid : SessionId) : Prop :=
  ∃ ρ ρ', SystemReachable ρ ∧ system.step ρ (.exec pid (.createJob .commit)) = some ρ' ∧
    EndsCreation ρ ρ' sid .running ∧ system.Reaches ρ' σ

theorem MadeRunning.step {σ τ : SystemState} {a : SystemAction} {pid : ℕ} {sid : SessionId}
    (h : MadeRunning σ pid sid) (hs : system.step σ a = some τ) : MadeRunning τ pid sid := by
  obtain ⟨ρ, ρ', hρ, hcommit, hends, hreach⟩ := h
  exact ⟨ρ, ρ', hρ, hcommit, hends, hreach.tail ⟨a, trivial, hs⟩⟩

theorem spawnStep_createJob {pid : ℕ} {w w' : World} {n : SpawnAction} {j : CreateJob}
    (h : spawnStep pid w n = some (w', .createJob j)) : j.stage = .start := by
  cases (spawnStep_cases h).2
  rfl

/-- A job is past its commit only by a commit that took the session from `creating`. -/
theorem CreateJob.step_committed {w w' : World} {p j : CreateJob} {a : CreateJobAction}
    (h : p.step w a = some (w', some j)) (hstage : j.stage = .committed) :
    a = .commit ∧ ∃ r r', w.db.session? j.payload.sessionId = some r ∧ r.status = .creating ∧
      w'.db.session? j.payload.sessionId = some r' ∧ r'.status = .running := by
  cases a with
  | lockRow denied =>
      simp only [CreateJob.step] at h
      split at h
      · split at h
        · cases h
        · split at h <;> cases h
          simp only at hstage
          split at hstage <;> cases hstage
      · cases h
  | getAdapter unknown minted =>
      simp only [CreateJob.step] at h
      split at h <;> cases h
      simp only at hstage
      split at hstage <;> cases hstage
  | release =>
      rcases (CreateJob.release_cases h).2 with hend | ⟨reason, row, -, -, -, hq⟩
      · cases hend
      · cases hq
        cases hstage
  | fail =>
      simp only [CreateJob.step] at h
      split at h <;> cases h
  | commit =>
      simp only [CreateJob.step] at h
      split at h
      · split at h
        · rename_i hdb
          cases h
          obtain ⟨row, hrow, hs, hupd⟩ := markRunning_updates hdb
          refine ⟨rfl, row, _, hrow, hs, hupd.get hrow, ?_⟩
          rw [SessionUpdate.only, if_pos rfl]
        · cases h
      · cases h
  | register =>
      simp only [CreateJob.step] at h
      split at h <;> cases h

theorem execStep_createJob {pid : ℕ} {w w' : World} {p : Process} {a : ExecAction}
    {j : CreateJob} (h : execStep pid w p a = some (w', some (.createJob j))) :
    ∃ p₀ b, p = .createJob p₀ ∧ a = .createJob b ∧ p₀.step w b = some (w', some j) := by
  generalize hq : some (Process.createJob j) = q at h
  cases execStep_cases h with
  | createJob hstep =>
      obtain ⟨j', hj', he⟩ := Option.map_eq_some_iff.mp hq.symm
      cases he
      subst hj'
      exact ⟨_, _, rfl, rfl, hstep⟩
  | crash | release | sweep => cases hq
  | reply hstep =>
      obtain ⟨⟨s, next⟩, -, he⟩ := Option.map_eq_some_iff.mp hstep
      cases he
      cases hq
  | createSaga | resumeJob | input | recovery | drift | relay | trim =>
      obtain ⟨_, -, he⟩ := Option.map_eq_some_iff.mp hq.symm
      cases he

/-- A job that is past its commit made its session run. -/
theorem committed_madeRunning {σ : SystemState} (h : SystemReachable σ) {pid : ℕ} {j : CreateJob}
    (hp : σ.procs pid = some (.createJob j)) (hstage : j.stage = .committed) :
    MadeRunning σ pid j.payload.sessionId := by
  refine h.invariant (I := fun σ ↦ ∀ pid j, σ.procs pid = some (.createJob j) →
    j.stage = .committed → MadeRunning σ pid j.payload.sessionId) ?_ ?_ pid j hp hstage
  · intro w _ pid j hp
    cases hp
  · intro σ a τ hσ ih _ hs pid j hp hstage
    rcases Machine.step_procs hs hp with hold | ⟨n, -, -, hn⟩ | ⟨b, p, rfl, hp₀, hb⟩
    · exact (ih pid j hold hstage).step hs
    · have hspawn : spawnStep pid σ.shared n = some (τ.shared, .createJob j) := hn
      have hstart := spawnStep_createJob hspawn
      rw [hstage] at hstart
      cases hstart
    · obtain ⟨p₀, c, rfl, rfl, hstep⟩ := execStep_createJob hb
      obtain ⟨rfl, r, r', hr, hcreating, hr', hrunning⟩ := CreateJob.step_committed hstep hstage
      exact ⟨σ, τ, hσ, hs, ⟨r, r', hr, hcreating, hr', hrunning⟩, .refl⟩

/-- A creation has one outcome, told once, by the transaction that decides it. -/
theorem creation_has_one_outcome {σ τ : SystemState} {a : SystemAction} (h : SystemReachable σ)
    (hs : system.step σ a = some τ) :
    (∀ sid guildId threadId noticeType message,
      .systemNotice sid guildId threadId noticeType message ∈
        σ.shared.db.written τ.shared.db →
      EndsCreation σ τ sid noticeType.status ∧
      ((σ.shared.db.written τ.shared.db).filter (Envelope.isOutcome sid)).length = 1 ∧
      ∀ ρ b ρ', system.Reaches τ ρ → system.step ρ b = some ρ' →
        ∀ e ∈ ρ.shared.db.written ρ'.shared.db, e.isOutcome sid = false) ∧
    (τ.shared.registered = σ.shared.registered ∨ ∃ pid sid,
      τ.shared.registered = sid :: σ.shared.registered ∧ MadeRunning σ pid sid) := by
  constructor
  · intro sid guildId threadId noticeType message hmem
    obtain ⟨hends, hone⟩ := step_outcomes hs hmem
    refine ⟨hends, hone, fun ρ b ρ' hρ hb e he ↦ Bool.eq_false_iff.mpr fun hout ↦ ?_⟩
    obtain ⟨r, r', hr, hcreating, hr', hstatus⟩ := hends
    have hleft : r'.status ≠ .creating := by
      rw [hstatus]
      cases noticeType <;> exact fun hc ↦ nomatch hc
    obtain ⟨r₁, hr₁, hleft₁⟩ := not_creating_again (h.step trivial hs) hρ hr' hleft
    obtain ⟨_, _, _, _, rfl⟩ := e.eq_systemNotice_of_isOutcome hout
    obtain ⟨⟨r₂, _, hr₂, hcreating₂, -⟩, -⟩ := step_outcomes hb he
    cases hr₁.symm.trans hr₂
    exact hleft₁ hcreating₂
  · rcases step_registered hs with hsame | ⟨pid, j, hp, hstage, hreg⟩
    · exact .inl hsame
    · exact .inr ⟨pid, j.payload.sessionId, hreg, committed_madeRunning h hp hstage⟩

/-- The create job of `openedRun` before its commit, and after it. -/
def readyState : SystemState :=
  (system.run (.start deployment) openedRun.dropLast).get (by decide +kernel)

def createdState : SystemState :=
  (system.step readyState (.exec 2 (.createJob .commit))).get (by decide +kernel)

theorem creation_has_one_outcome_running :
    EndsCreation readyState createdState 1 .running ∧
      ((readyState.shared.db.written createdState.shared.db).filter
        (Envelope.isOutcome 1)).length = 1 := by
  have hreach : SystemReachable readyState :=
    Machine.reachable_of_run deployment_fresh (Option.some_get _).symm
  have hstep : system.step readyState (.exec 2 (.createJob .commit)) = some createdState :=
    (Option.some_get _).symm
  obtain ⟨houtcome, -⟩ := creation_has_one_outcome hreach hstep
  obtain ⟨hends, hone, -⟩ := houtcome 1 1 (some 7) .sessionRunning
    "✅ Session ready. Send your messages in this thread." (by decide +kernel)
  exact ⟨hends, hone⟩

end Discode
