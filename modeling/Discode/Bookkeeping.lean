import Discode.QuietSteps

/-!
# Configuration, creation locks and session stores

What few steps write: the configuration changes between deployments, a creation lock belongs
to its saga, and only a create job enters a session in the store of its runner.
-/

set_option autoImplicit false

namespace Discode

open ProcessPool (Machine)

/-- A step of process `pid` takes no creation lock from another process. -/
structure OwnStep (pid : ℕ) (p : Process) (w w' : World) : Prop where
  settings : w'.settings = w.settings
  createLocks : ∀ owner other, other ≠ pid → w.createLocks owner = some other →
    w'.createLocks owner = some other
  registered : w'.registered = w.registered ∨ ∃ j, p = .createJob j ∧ j.stage = .committed ∧
    w'.registered = j.payload.sessionId :: w.registered

namespace OwnStep

variable {pid : ℕ} {p : Process} {w w' : World}

theorem of_eq (hsettings : w'.settings = w.settings) (hlocks : w'.createLocks = w.createLocks)
    (hregistered : w'.registered = w.registered) : OwnStep pid p w w' :=
  ⟨hsettings, fun _ _ _ h ↦ hlocks ▸ h, .inl hregistered⟩

theorem release (h : OwnStep pid p w w') : OwnStep pid p w (w'.release pid) where
  settings := h.settings
  createLocks owner other hne hheld := by
    have hheld' := h.createLocks owner other hne hheld
    simp only [World.release, hheld', Option.some.injEq, if_neg hne]
  registered := h.registered

theorem setDb (w : World) (db : Database) : OwnStep pid p w (w.setDb db) :=
  .of_eq rfl rfl rfl

theorem refl (w : World) : OwnStep pid p w w := .of_eq rfl rfl rfl

end OwnStep

theorem World.resumed_ownStep {pid : ℕ} {q : Process} (w : World) (p : LifecyclePayload)
    (row : SessionRow) (token : Option Token) : OwnStep pid q w (w.resumed p row token) := by
  unfold World.resumed
  split <;> exact .of_eq rfl rfl rfl

theorem CreateSaga.step_ownStep {pid : ℕ} {w w' : World} {p : CreateSaga} {q : Option CreateSaga}
    {a : CreateSagaAction} (h : p.step pid w a = some (w', q)) :
    OwnStep pid (.createSaga p) w w' := by
  cases a with
  | acquire =>
      simp only [CreateSaga.step] at h
      split at h
      · split at h
        · rename_i hfree
          cases h
          refine ⟨rfl, fun owner other _ hheld ↦ ?_, .inl rfl⟩
          have hne : owner ≠ (p.request.guildId, p.request.ownerId) := by
            rintro rfl
            rw [hfree] at hheld
            cases hheld
          exact (Function.update_of_ne hne _ _).trans hheld
        · cases h
      · cases h
  | count =>
      simp only [CreateSaga.step] at h
      split at h
      · split at h <;> cases h
        · exact (OwnStep.refl w).release
        · exact .refl w
      · cases h
  | beginSelect =>
      simp only [CreateSaga.step] at h
      split at h <;> cases h
      exact .refl _
  | commit predecessor =>
      simp only [CreateSaga.step] at h
      split at h
      · obtain ⟨db, -, he⟩ := Option.map_eq_some_iff.mp h
        have hown : OwnStep pid (.createSaga p) w ((w.setDb db).release pid) :=
          (OwnStep.setDb w db).release
        cases predecessor with
        | none => cases he; exact hown
        | some p' => cases he; exact ⟨hown.settings, hown.createLocks, hown.registered⟩
      · cases h

theorem CreateJob.step_ownStep {pid : ℕ} {w w' : World} {p : CreateJob} {q : Option CreateJob}
    {a : CreateJobAction} (h : p.step w a = some (w', q)) :
    OwnStep pid (.createJob p) w w' := by
  cases a with
  | register =>
      simp only [CreateJob.step] at h
      split at h
      · rename_i hstage
        cases h
        exact ⟨rfl, fun _ _ _ hheld ↦ hheld, .inr ⟨p, rfl, hstage, rfl⟩⟩
      · cases h
  | _ =>
      simp only [CreateJob.step] at h
      repeat' split at h
      all_goals cases h
      all_goals exact .of_eq rfl rfl rfl

theorem ResumeJob.step_ownStep {pid : ℕ} {w w' : World} {p : ResumeJob} {q : Option ResumeJob}
    {a : ResumeJobAction} (h : p.step pid w a = some (w', q)) :
    OwnStep pid (.resumeJob p) w w' := by
  cases a with
  | commit =>
      simp only [ResumeJob.step] at h
      split at h <;> cases h
      exact (World.resumed_ownStep _ _ _ _).release
  | commitFails applied =>
      simp only [ResumeJob.step] at h
      split at h <;> cases h
      split
      · exact World.resumed_ownStep _ _ _ _
      · exact .of_eq rfl rfl rfl
  | _ =>
      simp only [ResumeJob.step] at h
      repeat' split at h
      all_goals cases h
      all_goals first
        | exact .of_eq rfl rfl rfl
        | exact (OwnStep.setDb _ _).release

theorem execStep_ownStep {pid : ℕ} {w w' : World} {p : Process} {a : ExecAction}
    {q : Option Process} (h : execStep pid w p a = some (w', q)) : OwnStep pid p w w' := by
  cases execStep_cases h with
  | crash => exact (OwnStep.refl w).release
  | createSaga hstep => exact CreateSaga.step_ownStep hstep
  | createJob hstep => exact CreateJob.step_ownStep hstep
  | resumeJob hstep => exact ResumeJob.step_ownStep hstep
  | input hstep =>
      cases InputHandler.step_effect hstep with
      | leave => exact (OwnStep.refl w).release
      | _ => exact .of_eq rfl rfl rfl
  | @recovery rows _ _ _ hstep =>
      cases rows <;> cases hstep <;> exact .of_eq rfl rfl rfl
  | release => exact .refl w
  | sweep => exact .of_eq rfl rfl rfl
  | @drift p b _ _ hstep =>
      cases b
      all_goals simp only [DriftSweep.step] at hstep
      all_goals repeat' split at hstep
      all_goals cases hstep
      all_goals exact .of_eq rfl rfl rfl
  | @relay p b _ _ hstep =>
      cases b
      all_goals simp only [RelayBatch.step] at hstep
      all_goals repeat' split at hstep
      all_goals cases hstep
      all_goals exact .of_eq rfl rfl rfl
  | @trim p b _ _ hstep =>
      cases b
      all_goals simp only [TrimCall.step] at hstep
      all_goals repeat' split at hstep
      all_goals cases hstep
      all_goals exact .of_eq rfl rfl rfl
  | reply hstep =>
      obtain ⟨⟨s, next⟩, -, he⟩ := Option.map_eq_some_iff.mp hstep
      cases he
      exact .of_eq rfl rfl rfl

/-- The environment holds no creation lock, and only operators change the configuration. -/
structure EnvStepFrame (e : EnvAction) (w w' : World) : Prop where
  settings : (∀ settings redactor, e ≠ .configure settings redactor) → w'.settings = w.settings
  createLocks : w'.createLocks = w.createLocks
  registered : w'.registered = w.registered

theorem envStep_frame {w w' : World} {e : EnvAction} (h : envStep w e = some w') :
    EnvStepFrame e w w' := by
  have hcommit : ∀ {db : Option Database}, w.commit db = some w' → EnvStepFrame e w w' := by
    intro db h
    obtain ⟨_, -, rfl⟩ := Option.map_eq_some_iff.mp h
    exact ⟨fun _ ↦ rfl, rfl, rfl⟩
  cases e with
  | input | stop | archive | resume => exact hcommit h
  | restart | stopJob | retire =>
      simp only [envStep] at h
      split at h <;> cases h
      exact ⟨fun _ ↦ rfl, rfl, rfl⟩
  | configure settings redactor =>
      cases h
      exact ⟨fun hne ↦ absurd rfl (hne settings redactor), rfl, rfl⟩
  | _ => cases h; exact ⟨fun _ ↦ rfl, rfl, rfl⟩

/-- Only the last step of a create job enters a session in a store. -/
theorem step_registered {σ τ : SystemState} {a : SystemAction} (h : system.step σ a = some τ) :
    τ.shared.registered = σ.shared.registered ∨ ∃ pid j,
      σ.procs pid = some (.createJob j) ∧ j.stage = .committed ∧
      τ.shared.registered = j.payload.sessionId :: σ.shared.registered := by
  rcases step_world h with ⟨e, rfl, he⟩ | ⟨n, rfl, hw⟩ | ⟨pid, b, p, q, rfl, hp, hb⟩
  · exact .inl (envStep_frame he).registered
  · exact .inl (congrArg World.registered hw)
  · rcases (execStep_ownStep hb).registered with hsame | ⟨j, rfl, hstage, hreg⟩
    · exact .inl hsame
    · exact .inr ⟨pid, j, hp, hstage, hreg⟩

theorem step_settings {σ τ : SystemState} {a : SystemAction} (h : system.step σ a = some τ)
    (ha : ∀ settings redactor, a ≠ .env (.configure settings redactor)) :
    τ.shared.settings = σ.shared.settings := by
  rcases step_world h with ⟨e, rfl, he⟩ | ⟨n, rfl, hw⟩ | ⟨pid, b, p, q, rfl, hp, hb⟩
  · exact (envStep_frame he).settings fun settings redactor heq ↦ ha settings redactor (by rw [heq])
  · exact congrArg World.settings hw
  · exact (execStep_ownStep hb).settings

/-! ## The creation lock -/

def CreateSaga.owner (p : CreateSaga) : GuildId × UserId :=
  (p.request.guildId, p.request.ownerId)

/-- The saga is past `pg_advisory_xact_lock`. -/
def CreateSagaStage.isLocked : CreateSagaStage → Bool
  | start => false
  | _ => true

theorem spawnStep_createSaga {pid : ℕ} {w w' : World} {n : SpawnAction} {p : CreateSaga}
    (h : spawnStep pid w n = some (w', .createSaga p)) : p.stage = .start := by
  cases (spawnStep_cases h).2
  rfl

/-- What a create saga does before it commits. -/
inductive CreateSaga.Proceeds (pid : ℕ) (w w' : World) (p : CreateSaga) :
    CreateSagaAction → CreateSaga → Prop where
  | acquire (hlock : w'.createLocks p.owner = some pid) :
      Proceeds pid w w' p .acquire { p with stage := .locked }
  | count (hstage : p.stage = .locked) (hw : w' = w)
      (hcount : w.db.activeSessionCount p.request.guildId p.request.ownerId <
        w.settings.maxActiveSessionsPerUser) :
      Proceeds pid w w' p .count { p with stage := .counted }
  | beginSelect (hstage : p.stage = .counted) (hw : w' = w) :
      Proceeds pid w w' p .beginSelect { p with stage := .selecting w.db }

theorem CreateSaga.Proceeds.not_commit {pid : ℕ} {w w' : World} {p q : CreateSaga}
    {predecessor : Option SessionId} : ¬ p.Proceeds pid w w' (.commit predecessor) q :=
  fun h ↦ nomatch h

theorem CreateSaga.step_proceeds {pid : ℕ} {w w' : World} {p q : CreateSaga}
    {a : CreateSagaAction} (h : p.step pid w a = some (w', some q)) :
    p.Proceeds pid w w' a q := by
  cases a with
  | acquire =>
      simp only [CreateSaga.step] at h
      split at h
      · split at h <;> cases h
        exact .acquire (Function.update_self _ _ _)
      · cases h
  | count =>
      simp only [CreateSaga.step] at h
      split at h
      · rename_i hstage
        split at h <;> cases h
        rename_i hcount
        exact .count hstage rfl (not_le.mp hcount)
      · cases h
  | beginSelect =>
      simp only [CreateSaga.step] at h
      split at h <;> cases h
      rename_i hstage
      exact .beginSelect hstage rfl
  | commit predecessor =>
      simp only [CreateSaga.step] at h
      split at h
      · obtain ⟨db, -, he⟩ := Option.map_eq_some_iff.mp h
        cases predecessor <;> cases he
      · cases h

theorem execStep_createSaga {pid : ℕ} {w w' : World} {p : Process} {a : ExecAction}
    {q : CreateSaga} (h : execStep pid w p a = some (w', some (.createSaga q))) :
    ∃ p₀ b, p = .createSaga p₀ ∧ a = .createSaga b ∧ p₀.Proceeds pid w w' b q := by
  generalize hr : some (Process.createSaga q) = r at h
  cases execStep_cases h with
  | createSaga hstep =>
      obtain ⟨q', hq', he⟩ := Option.map_eq_some_iff.mp hr.symm
      cases he
      subst hq'
      exact ⟨_, _, rfl, rfl, CreateSaga.step_proceeds hstep⟩
  | crash | release | sweep => cases hr
  | reply hstep =>
      obtain ⟨⟨s, next⟩, -, he⟩ := Option.map_eq_some_iff.mp hstep
      cases he
      cases hr
  | createJob | resumeJob | input | recovery | drift | relay | trim =>
      obtain ⟨_, -, he⟩ := Option.map_eq_some_iff.mp hr.symm
      cases he

/-- A creation that is past its first statement holds the lock of its owner. -/
def HoldsOwnerLock (pid : ℕ) (p : Process) (w : World) : Prop :=
  ∀ q, p = .createSaga q → q.stage.isLocked = true → w.createLocks q.owner = some pid

theorem createLock_proof {ok : SystemState → SystemAction → Prop} :
    Machine.Proof system ok (fun _ ↦ True) HoldsOwnerLock where
  env σ e w _ _ he := by
    refine ⟨trivial, fun pid p hp q hq hlocked ↦ ?_⟩
    rw [(envStep_frame he).createLocks]
    exact hp q hq hlocked
  spawn σ n w p _ _ hn := by
    have hspawn : spawnStep σ.next σ.shared n = some (w, p) := hn
    have hw : w = σ.shared := spawnStep_world hspawn
    subst hw
    refine ⟨trivial, fun q hq hlocked ↦ ?_, fun _ _ _ h ↦ h⟩
    subst hq
    rw [spawnStep_createSaga hspawn] at hlocked
    cases hlocked
  exec σ pid p a w p' h _ hp hb := by
    refine ⟨trivial, fun r hr q hq hlocked ↦ ?_, fun other r hne hr q hq hlocked ↦ ?_⟩
    · subst hr hq
      obtain ⟨p₀, b, rfl, rfl, hstep⟩ := execStep_createSaga hb
      have hown := h.assert pid _ hp p₀ rfl
      cases hstep with
      | acquire hlock => exact hlock
      | count hstage hw => exact hw ▸ hown (by rw [hstage]; rfl)
      | beginSelect hstage hw => exact hw ▸ hown (by rw [hstage]; rfl)
    · exact (execStep_ownStep hb).createLocks q.owner other hne (hr q hq hlocked)

theorem createLock_held {σ : SystemState} (h : SystemReachable σ) {pid : ℕ} {p : CreateSaga}
    (hp : σ.procs pid = some (.createSaga p)) (hlocked : p.stage.isLocked = true) :
    σ.shared.createLocks p.owner = some pid :=
  (createLock_proof.annotated (fun _ _ ↦ trivial) h).assert pid _ hp p rfl hlocked

end Discode
