import Discode.Executions

/-!
# The transition table

The frozen table of `specs/state_machine.py`, the moves by which the sagas and sweeps go
beyond it, and that the two together are all that ever happens to a session.
-/

set_option autoImplicit false

namespace Discode

/-- `STATE_TRANSITIONS`. -/
def stateTransitions : Status → List Status
  | .creating => [.running, .failed]
  | .running => [.idle, .stopping, .failed, .orphaned]
  | .idle => [.running, .archived, .stopping, .orphaned]
  | .archived => [.resuming]
  | .resuming => [.running, .orphaned, .failed]
  | .stopping => [.stopped, .failed, .orphaned]
  | .stopped | .failed | .orphaned => []

/-- What the stop, archive and restart sagas, recovery and the timeout sweeps add. -/
def furtherTransitions : Status → List Status
  | .creating | .resuming | .archived => [.stopping]
  | .running => [.archived, .resuming]
  | .idle => [.resuming, .failed]
  | .stopped => [.archived, .resuming]
  | .stopping | .failed | .orphaned => []

def Status.mayBecome (a b : Status) : Prop := b ∈ stateTransitions a ∨ b ∈ furtherTransitions a

instance (a b : Status) : Decidable (a.mayBecome b) := inferInstanceAs (Decidable (_ ∨ _))

/-- No writer moves a session with a host outside the extended table. -/
theorem Writer.assign_mayBecome (w : Writer) {c : SessionCore} (h : c.status ∈ w.sources)
    (hhost : c.hostId.isSome) :
    (w.assign c).status = c.status ∨ c.status.mayBecome (w.assign c).status := by
  have hcases : ∀ (l : List Status) (target : Status),
      (∀ s ∈ l, target = s ∨ s.mayBecome target) → c.status ∈ l →
        target = c.status ∨ c.status.mayBecome target :=
    fun _ _ hall hl ↦ hall c.status hl
  cases w with
  | storeToken token => exact .inl rfl
  | markRunning hostId token => exact hcases [.creating] .running (by decide) h
  | failCreation => exact hcases [.creating] .failed (by decide) h
  | touch => exact hcases [.running, .idle] .running (by decide) h
  | idle => exact hcases [.running] .idle (by decide) h
  | stop => exact hcases [.creating, .resuming, .running, .idle] .stopping (by decide) h
  | archive => exact hcases [.running, .idle, .stopped] .archived (by decide) h
  | archiveIdle => exact hcases [.idle] .archived (by decide) h
  | resume => exact hcases [.archived] .resuming (by decide) h
  | restart => exact hcases [.running, .idle, .stopped] .resuming (by decide) h
  | resumed token => exact hcases [.resuming] .running (by decide) h
  | refuseResume => exact hcases [.resuming] .failed (by decide) h
  | orphanResume => exact hcases [.resuming] .orphaned (by decide) h
  | confirmStop => exact hcases [.stopping] .stopped (by decide) h
  | stopOld =>
      rw [assign, if_pos hhost]
      exact hcases [.running, .idle, .archived] .stopping (by decide) h
  | stopUnconfirmed => exact hcases [.stopping] .stopped (by decide) h
  | loseRunner => exact hcases [.running, .idle, .resuming] .failed (by decide) h
  | failRecovery => exact hcases [.running, .idle, .resuming] .failed (by decide) h
  | orphanRecovery => exact hcases [.running, .idle, .resuming] .orphaned (by decide) h

theorem CoreStep.mayBecome {W : Writer → Prop} {c c' : SessionCore}
    (h : CoreStep W (some c) (some c')) (hhost : c.hostId.isSome) :
    c'.status = c.status ∨ c.status.mayBecome c'.status := by
  rcases h.some_left with he | ⟨w, -, hw, he⟩
  · exact .inl (congrArg SessionCore.status (Option.some.inj he))
  · exact Option.some.inj he ▸ w.assign_mayBecome hw hhost

/-- Every session keeps the host its creation named, or gets another one. -/
theorem hostId_isSome {σ : SystemState} (h : SystemReachable σ) (sid : SessionId)
    (c : SessionCore) (hc : σ.shared.db.core? sid = some c) : c.hostId.isSome := by
  refine h.invariant (I := fun σ ↦ ∀ sid c, σ.shared.db.core? sid = some c → c.hostId.isSome)
    ?_ ?_ sid c hc
  · rintro w ⟨settings, redactor, rfl⟩ sid c hc
    cases hc
  · intro σ a τ hσ ih _ hs sid c' hc'
    have hstep := (step_advance hσ hs).core sid
    rw [hc'] at hstep
    generalize hold : σ.shared.db.core? sid = old at hstep
    cases hstep with
    | same => exact ih sid c' hold
    | created _ _ _ _ hh => exact hh
    | move w c _ _ => exact w.assign_hostId_isSome (ih sid c hold)

/-- Every committed change of a status follows the extended table, and a session that failed
or was orphaned never changes its status again. -/
theorem status_changes_follow_table {σ τ : SystemState} {a : SystemAction}
    (h : SystemReachable σ) (hs : system.step σ a = some τ) (sid : SessionId) (r : SessionRow)
    (hr : σ.shared.db.session? sid = some r) :
    ∃ r', τ.shared.db.session? sid = some r' ∧
      (r'.status ≠ r.status → r.status.mayBecome r'.status) ∧
      (r.status = .failed ∨ r.status = .orphaned → ∀ ρ, system.Reaches τ ρ → ∃ r'',
        ρ.shared.db.session? sid = some r'' ∧ r''.status = r.status) := by
  have hfinal : ∀ {σ τ : SystemState} {a : SystemAction} {r : SessionRow}, SystemReachable σ →
      system.step σ a = some τ → σ.shared.db.session? sid = some r →
      ∃ r', τ.shared.db.session? sid = some r' ∧
        (r'.status = r.status ∨ r.status.mayBecome r'.status) := by
    intro σ τ a r h hs hr
    have hc : σ.shared.db.core? sid = some r.core := by rw [Database.core?, hr]; rfl
    have hstep := hc ▸ (step_advance h hs).core sid
    obtain ⟨c', hc'⟩ := hstep.exists_of_some
    obtain ⟨r', hr', rfl⟩ := Option.map_eq_some_iff.mp hc'
    rw [hc'] at hstep
    exact ⟨r', hr', hstep.mayBecome (hostId_isSome h sid _ hc)⟩
  obtain ⟨r', hr', hmove⟩ := hfinal h hs hr
  refine ⟨r', hr', fun hne ↦ hmove.resolve_left hne, fun hterm ρ hρ ↦ ?_⟩
  have hdead : ∀ {b : Status}, ¬ r.status.mayBecome b := by
    intro b hb
    rcases hterm with hf | hf <;> rw [hf] at hb <;> rcases hb with hb | hb <;> cases hb
  induction hρ with
  | refl => exact ⟨r', hr', hmove.resolve_right hdead⟩
  | tail hpre hst ih =>
      obtain ⟨b, -, hb⟩ := hst
      obtain ⟨r₁, hr₁, hsame⟩ := ih
      have hτ : SystemReachable τ := h.step trivial hs
      obtain ⟨r₂, hr₂, hmove₂⟩ := hfinal (hτ.reaches hpre) hb hr₁
      refine ⟨r₂, hr₂, ?_⟩
      rw [hsame] at hmove₂
      exact hmove₂.resolve_right hdead

/-- A session that was just opened is archived by its owner. -/
def openedRun : List SystemAction := openRun 0 1 7 (pyStr "demo") 1 none none

def openedState : SystemState :=
  (system.run (.start deployment) openedRun).get (by decide +kernel)

theorem openedState_reachable : SystemReachable openedState :=
  ProcessPool.Machine.reachable_of_run deployment_fresh (Option.some_get _).symm

def archivedState : SystemState :=
  (system.step openedState (.env (.archive 1 1))).get (by decide +kernel)

theorem archivedState_step :
    system.step openedState (.env (.archive 1 1)) = some archivedState :=
  (Option.some_get _).symm

theorem status_changes_leave_frozen_table :
    ¬ ∀ (σ τ : SystemState) (a : SystemAction) (sid : SessionId) (r r' : SessionRow),
      SystemReachable σ → system.step σ a = some τ → σ.shared.db.session? sid = some r →
      τ.shared.db.session? sid = some r' → r'.status ≠ r.status →
      r'.status ∈ stateTransitions r.status := by
  intro hclaim
  obtain ⟨r, hr⟩ : ∃ r, openedState.shared.db.session? 1 = some r :=
    Option.isSome_iff_exists.mp (by decide +kernel)
  obtain ⟨r', hr'⟩ : ∃ r, archivedState.shared.db.session? 1 = some r :=
    Option.isSome_iff_exists.mp (by decide +kernel)
  have hs : (openedState.shared.db.session? 1).map SessionRow.status = some .running ∧
      (archivedState.shared.db.session? 1).map SessionRow.status = some .archived := by
    decide +kernel
  rw [hr, hr'] at hs
  have hrun : r.status = .running := Option.some.inj hs.1
  have harch : r'.status = .archived := Option.some.inj hs.2
  have hin := hclaim openedState archivedState _ 1 r r' openedState_reachable archivedState_step
    hr hr' (by rw [hrun, harch]; decide)
  rw [hrun, harch] at hin
  exact absurd hin (by decide)

theorem status_changes_follow_table_archived :
    ∃ r r', openedState.shared.db.session? 1 = some r ∧
      archivedState.shared.db.session? 1 = some r' ∧
      (r'.status ≠ r.status → r.status.mayBecome r'.status) := by
  obtain ⟨r, hr⟩ : ∃ r, openedState.shared.db.session? 1 = some r :=
    Option.isSome_iff_exists.mp (by decide +kernel)
  obtain ⟨r', hr', hmove, -⟩ :=
    status_changes_follow_table openedState_reachable archivedState_step 1 r hr
  exact ⟨r, r', hr, hr', hmove⟩

end Discode
