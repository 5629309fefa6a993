import Discode.SupervisedTools

/-!
# Tools are over in time

The bounds of the invariant would mean little if time could stand still: here every reachable
state goes on to later ones.
-/

set_option autoImplicit false

namespace Discode.Supervision

variable {σ τ : State}

/-! ## Cancellations reach their task -/

structure Flags (σ : State) : Prop where
  run : σ.cancelRun = true → σ.run.isOver = false
  monitor : σ.cancelMonitor = true → σ.monitor.isOver = false
  deliver : σ.cancelDeliver = true → σ.deliver = .building ∨ σ.deliver = .waiting

theorem RunStep.flags (h : RunStep σ τ) : (τ.cancelRun = σ.cancelRun ∨ τ.cancelRun = false) ∧
    τ.cancelMonitor = σ.cancelMonitor ∧ τ.cancelDeliver = σ.cancelDeliver := by
  cases h with
  | cutSpawning | cancelled | cutGathering | cutReaping => exact ⟨.inr rfl, rfl, rfl⟩
  | _ => exact ⟨.inl rfl, rfl, rfl⟩

theorem cancelRun_seen {survivors : ℕ} (h : cancelRun σ survivors = some τ) :
    τ.cancelRun = false := by
  unfold cancelRun at h
  split at h <;> cases h <;> rfl

theorem Flags.runStep {a : RunAction} (h : Flags σ) (hstep : step σ (.run a) = some τ) :
    Flags τ := by
  obtain ⟨hrun, hcancel⟩ := step_run hstep
  obtain ⟨hflag, hcancelMonitor, hcancelDeliver⟩ := hrun.flags
  obtain ⟨hdeliver, hmonitor, -⟩ := hrun.frame
  refine ⟨fun hcancelled ↦ ?_, ?_, ?_⟩
  · rcases hflag with hsame | hseen
    · obtain ⟨survivors, hcut⟩ := hcancel (hsame ▸ hcancelled)
      rw [cancelRun_seen hcut] at hcancelled
      cases hcancelled
    · rw [hseen] at hcancelled
      cases hcancelled
  · rw [hcancelMonitor, hmonitor]
    exact h.monitor
  · rw [hcancelDeliver, hdeliver]
    exact h.deliver

theorem flags_clean (delivery : Delivery) : Flags (σ.clean delivery) where
  run hcancel := by simpa [State.clean] using hcancel
  monitor hcancel := by simpa [State.clean] using hcancel
  deliver hcancel := by cases hcancel

theorem Flags.deliverStep {a : DeliverAction} (h : Flags σ) (hstep : stepDeliver σ a = some τ) :
    Flags τ := by
  have hmove : ∀ stage, Flags { σ with deliver := stage, cancelDeliver := false } :=
    fun stage ↦ ⟨h.run, h.monitor, fun hcancel ↦ (by cases hcancel)⟩
  have hstay : ∀ stage, ¬ σ.cancelDeliver = true → Flags { σ with deliver := stage } :=
    fun stage hcancel ↦ ⟨h.run, h.monitor, fun hcancelled ↦ absurd hcancelled hcancel⟩
  unfold stepDeliver at hstep
  split at hstep
  · split_ifs at hstep with hcancel
    cases hstep
    exact hstay _ hcancel
  · split_ifs at hstep with hcancel
    cases hstep
    exact hstay _ hcancel
  · split_ifs at hstep with hcancel
    cases hstep
    exact ⟨fun _ ↦ rfl, fun _ ↦ rfl, fun _ ↦ .inr rfl⟩
  · split_ifs at hstep
    cases hstep
    exact hmove _
  · split_ifs at hstep
    cases hstep
    exact flags_clean _
  · split_ifs at hstep
    cases hstep
    exact flags_clean _
  · rename_i delivery hdeliver
    split_ifs at hstep
    cases hstep
    refine hstay _ fun hcancel ↦ ?_
    rcases h.deliver hcancel with hbuilding | hwaiting
    · rw [hbuilding] at hdeliver
      cases hdeliver
    · rw [hwaiting] at hdeliver
      cases hdeliver
  · cases hstep

theorem Flags.step {a : Action} (h : Flags σ) (hstep : step σ a = some τ) : Flags τ := by
  cases a with
  | tick ms =>
      simp only [Supervision.step] at hstep
      split_ifs at hstep
      cases hstep
      exact ⟨h.run, h.monitor, h.deliver⟩
  | tool a =>
      simp only [Supervision.step] at hstep
      obtain ⟨g, -, rfl⟩ := Option.map_eq_some_iff.mp hstep
      exact ⟨h.run, h.monitor, h.deliver⟩
  | run a => exact h.runStep hstep
  | reaper a =>
      obtain ⟨hrun, hdeliver, hmonitor, hcancelRun, hcancelMonitor, hcancelDeliver, -⟩ :=
        reaper_frame hstep
      exact ⟨by rw [hcancelRun, hrun]; exact h.run, by rw [hcancelMonitor, hmonitor]; exact h.monitor,
        by rw [hcancelDeliver, hdeliver]; exact h.deliver⟩
  | monitor a =>
      obtain ⟨stage, flag, rfl, -, -, rfl⟩ := monitor_frame hstep
      exact ⟨h.run, fun hcancel ↦ (by cases hcancel), h.deliver⟩
  | deliver a => exact h.deliverStep hstep
  | cancel =>
      simp only [Supervision.step] at hstep
      unfold cancelDeliver at hstep
      split at hstep <;> cases hstep
      · rename_i hdeliver
        exact ⟨h.run, h.monitor, fun _ ↦ .inl hdeliver⟩
      · rename_i hdeliver
        exact ⟨h.run, h.monitor, fun _ ↦ .inr hdeliver⟩
      · exact flags_clean _

theorem reachable_flags (h : supervision.Reachable σ) : Flags σ := by
  refine h.invariant (fun σ hinit ↦ ?_) fun σ τ a hflags hstep ↦ hflags.step hstep
  obtain ⟨now, rfl⟩ := hinit
  exact ⟨fun hcancel ↦ (by cases hcancel), fun hcancel ↦ (by cases hcancel),
    fun hcancel ↦ (by cases hcancel)⟩

/-! ## Time goes on -/

def RunStage.rank : RunStage → ℕ
  | notStarted | ended _ => 0
  | spawning => 7
  | polling => 6
  | grace _ => 5
  | draining _ => 4
  | dropping => 3
  | gathering _ => 2
  | reaping _ => 1

def Reaper.rank : Reaper → ℕ
  | idle => 3
  | scheduled => 2
  | waiting _ => 1
  | done => 0

def MonitorStage.rank : MonitorStage → ℕ
  | notStarted | ended _ => 0
  | sleeping _ | checking => 1

def DeliverStage.rank : DeliverStage → ℕ
  | building => 3
  | waiting => 2
  | cleaning _ => 1
  | ended _ => 0

/-- How far the parties are from their ends; a step of `run` may start the reaper. -/
def State.rank (σ : State) : ℕ :=
  4 * σ.run.rank + σ.reaper.rank + σ.monitor.rank + σ.deliver.rank

/-- One of the parties can go on, towards its end. -/
def GoesOn (σ : State) : Prop :=
  ∃ a τ, step σ a = some τ ∧ τ.now = σ.now ∧ τ.rank < σ.rank

theorem Reaper.rank_le (r : Reaper) : r.rank ≤ 3 := by
  cases r <;> simp [Reaper.rank]

theorem goesOn_of_cancelRun (hcancel : σ.cancelRun = true) (hover : σ.run.isOver = false) :
    GoesOn σ := by
  refine ⟨.run (.cancelled 0), ?_⟩
  simp only [step, if_pos hcancel, cancelRun]
  cases hrun : σ.run with
  | notStarted | ended outcome =>
      rw [hrun] at hover
      cases hover
  | _ =>
      refine ⟨_, rfl, rfl, ?_⟩
      simp only [State.rank, hrun, RunStage.rank]
      omega

theorem goesOn_of_cancelMonitor (hcancel : σ.cancelMonitor = true)
    (hover : σ.monitor.isOver = false) : GoesOn σ := by
  refine ⟨.monitor .cancelled, ?_⟩
  cases hmonitor : σ.monitor with
  | notStarted | ended t =>
      rw [hmonitor] at hover
      cases hover
  | sleeping due | checking =>
      simp only [step, stepMonitor, hmonitor, if_pos hcancel]
      refine ⟨_, rfl, rfl, ?_⟩
      simp only [State.rank, hmonitor, MonitorStage.rank]
      omega

theorem goesOn_of_cancelDeliver (hcancel : σ.cancelDeliver = true)
    (hdeliver : σ.deliver = .building ∨ σ.deliver = .waiting) : GoesOn σ := by
  refine ⟨.deliver .cancelled, ?_⟩
  rcases hdeliver with hdeliver | hdeliver
  · simp only [step, stepDeliver, hdeliver, if_pos hcancel]
    refine ⟨_, rfl, rfl, ?_⟩
    simp only [State.rank, hdeliver, DeliverStage.rank]
    omega
  · simp only [step, stepDeliver, hdeliver, if_pos hcancel]
    refine ⟨_, rfl, rfl, ?_⟩
    simp only [State.clean, State.rank, hdeliver, DeliverStage.rank]
    omega

theorem goesOn_of_scheduled (hreaper : σ.reaper = .scheduled) : GoesOn σ := by
  refine ⟨.reaper .kill, ?_⟩
  simp only [step, stepReaper, if_pos hreaper]
  refine ⟨_, rfl, rfl, ?_⟩
  simp only [State.rank, hreaper, Reaper.rank]
  omega

/-- `run` is where it does not have to wait. -/
theorem goesOn_of_run (hcancel : σ.cancelRun = false) (hrun : (match σ.run with
    | .dropping | .gathering _ => true
    | .reaping _ => decide (σ.reaper = .done)
    | _ => false) = true) : GoesOn σ := by
  cases hstage : σ.run with
  | dropping =>
      refine ⟨.run (.dropped true), ?_⟩
      simp only [step, hcancel, stepRun, hstage]
      refine ⟨_, rfl, rfl, ?_⟩
      simp only [State.rank, hstage, RunStage.rank]
      omega
  | gathering exc =>
      refine ⟨.run .gathered, ?_⟩
      simp only [step, hcancel, stepRun, hstage]
      refine ⟨_, rfl, rfl, ?_⟩
      have hrank := σ.reaper.rank_le
      simp only [State.rank, hstage, RunStage.rank, Reaper.rank]
      omega
  | reaping exc =>
      rw [hstage] at hrun
      refine ⟨.run .reaped, ?_⟩
      simp only [step, hcancel, stepRun, hstage, if_pos (of_decide_eq_true hrun)]
      refine ⟨_, rfl, rfl, ?_⟩
      simp only [State.rank, hstage, RunStage.rank]
      omega
  | _ =>
      rw [hstage] at hrun
      cases hrun

theorem goesOn_of_over (hcancel : σ.cancelDeliver = false) (hdeliver : σ.deliver = .waiting)
    (hover : (σ.run.isOver || σ.monitor.isOver) = true) : GoesOn σ := by
  refine ⟨.deliver .proceed, ?_⟩
  simp only [step, stepDeliver, hdeliver, hcancel, if_pos hover]
  refine ⟨_, rfl, rfl, ?_⟩
  simp only [State.clean, State.rank, hdeliver, DeliverStage.rank]
  omega

theorem Flags.goesOn (h : Flags σ) (hurgent : σ.isUrgent = true) : GoesOn σ := by
  cases hrun : σ.cancelRun with
  | true => exact goesOn_of_cancelRun hrun (h.run hrun)
  | false =>
      cases hdeliver : σ.cancelDeliver with
      | true => exact goesOn_of_cancelDeliver hdeliver (h.deliver hdeliver)
      | false =>
          unfold State.isUrgent at hurgent
          simp only [Bool.or_eq_true, hrun, hdeliver, Bool.and_eq_true, decide_eq_true_eq] at hurgent
          rcases hurgent with ((((hcancel | hmonitor) | hcancel) | hscheduled) | hstage) | hover
          · cases hcancel
          · exact goesOn_of_cancelMonitor hmonitor (h.monitor hmonitor)
          · cases hcancel
          · exact goesOn_of_scheduled hscheduled
          · exact goesOn_of_run hrun hstage
          · exact goesOn_of_over hdeliver hover.1 ((Bool.or_eq_true _ _).mpr hover.2)

theorem goesOn_of_deadline (hcancel : σ.cancelRun = false) (hrun : σ.run.isTimed = true) {due : ℕ}
    (hdeadline : σ.deadline = some due) (hnow : due ≤ σ.now) : GoesOn σ := by
  refine ⟨.run .timeout, ?_⟩
  have hpassed : σ.deadline.any (· ≤ σ.now) = true := by
    rw [hdeadline]
    exact decide_eq_true hnow
  cases hstage : σ.run with
  | polling | grace wait | draining wait | dropping =>
      simp only [step, hcancel, stepRun, hstage, RunStage.isTimed, hpassed]
      refine ⟨_, rfl, rfl, ?_⟩
      simp only [State.rank, hstage, RunStage.rank]
      omega
  | _ =>
      rw [hstage] at hrun
      cases hrun

theorem goesOn_of_due (hcancel : σ.cancelRun = false) {due : ℕ} (hdue : due ∈ σ.timers)
    (hnow : due ≤ σ.now) : GoesOn σ := by
  unfold State.timers at hdue
  rcases List.mem_append.mp hdue with hdue | hreaper
  · rcases List.mem_append.mp hdue with hdeadline | hwait
    · split_ifs at hdeadline with hrun
      · exact goesOn_of_deadline hcancel hrun (Option.mem_toList.mp hdeadline) hnow
      · cases hdeadline
    · refine ⟨.run (.waited false true), ?_⟩
      split at hwait
      · rename_i wait hstage
        cases List.mem_singleton.mp hwait
        simp only [step, hcancel, stepRun, hstage, if_pos hnow]
        refine ⟨_, rfl, rfl, ?_⟩
        simp only [State.rank, hstage, RunStage.rank]
        omega
      · rename_i wait hstage
        cases List.mem_singleton.mp hwait
        simp only [step, hcancel, stepRun, hstage, if_pos hnow]
        refine ⟨_, rfl, rfl, ?_⟩
        simp only [State.rank, hstage, RunStage.rank]
        omega
      · cases hwait
  · split at hreaper
    · rename_i wait hwaiting
      refine ⟨.reaper .finish, ?_⟩
      simp only [step, stepReaper, hwaiting]
      refine ⟨_, rfl, rfl, ?_⟩
      simp only [State.rank, hwaiting, Reaper.rank]
      omega
    · cases hreaper

/-- Either the clock ticks, or somebody goes on. -/
theorem Flags.tick_or_goesOn (h : Flags σ) :
    Supervision.step σ (.tick 1) = some { σ with now := σ.now + 1 } ∨ GoesOn σ := by
  by_cases hurgent : σ.isUrgent = true
  · exact .inr (h.goesOn hurgent)
  · by_cases hdue : ∃ due ∈ σ.timers, due ≤ σ.now
    · have hcancel : σ.cancelRun = false := by
        refine Bool.eq_false_iff.mpr fun hcancel ↦ hurgent ?_
        unfold State.isUrgent
        simp [hcancel]
      obtain ⟨due, hmem, hnow⟩ := hdue
      exact .inr (goesOn_of_due hcancel hmem hnow)
    · have htimers : ∀ due ∈ σ.timers, σ.now + 1 ≤ due := fun due hmem ↦
        Nat.lt_of_not_le fun hnow ↦ hdue ⟨due, hmem, hnow⟩
      exact .inl (if_pos ⟨Bool.eq_false_iff.mpr hurgent, htimers⟩)

theorem Flags.time_goes_on {n : ℕ} (h : Flags σ) (hrank : σ.rank = n) :
    ∃ τ, Relation.ReflTransGen supervision.Step σ τ ∧ σ.now < τ.now := by
  induction n using Nat.strongRecOn generalizing σ with
  | ind n ih =>
      rcases h.tick_or_goesOn with htick | ⟨a, τ, hstep, hnow, hless⟩
      · exact ⟨_, .single ⟨.tick 1, htick⟩, Nat.lt_succ_self _⟩
      · obtain ⟨ρ, hreach, hlater⟩ := ih _ (hrank ▸ hless) (h.step hstep) rfl
        exact ⟨ρ, .head ⟨a, hstep⟩ hreach, hnow ▸ hlater⟩

theorem time_passes (h : supervision.Reachable σ) (t : ℕ) :
    ∃ τ, Relation.ReflTransGen supervision.Step σ τ ∧ t < τ.now := by
  induction t with
  | zero =>
      obtain ⟨τ, hreach, hlater⟩ := (reachable_flags h).time_goes_on rfl
      exact ⟨τ, hreach, Nat.lt_of_le_of_lt (Nat.zero_le _) hlater⟩
  | succ t ih =>
      obtain ⟨τ, hreach, hlater⟩ := ih
      obtain ⟨σ₀, hinit, hbefore⟩ := h
      obtain ⟨ρ, hgoes, hlast⟩ :=
        (reachable_flags ⟨σ₀, hinit, hbefore.trans hreach⟩).time_goes_on rfl
      exact ⟨ρ, hreach.trans hgoes, Nat.lt_of_le_of_lt hlater hlast⟩

/-! ## The bound -/

/-- A deadline is set once, and a monitor ends once. -/
theorem Inv.step_stays {a : Action} (h : Inv σ) (hstep : Supervision.step σ a = some τ) (t : ℕ) :
    (σ.deadline = some t → τ.deadline = some t) ∧
      (σ.monitor = .ended t → τ.monitor = .ended t) := by
  cases a with
  | tick ms =>
      simp only [Supervision.step] at hstep
      split_ifs at hstep
      cases hstep
      exact ⟨id, id⟩
  | tool a =>
      simp only [Supervision.step] at hstep
      obtain ⟨g, -, rfl⟩ := Option.map_eq_some_iff.mp hstep
      exact ⟨id, id⟩
  | run a =>
      have hrun := (step_run hstep).1
      refine ⟨fun ht ↦ ?_, hrun.frame.2.1 ▸ id⟩
      cases hrun with
      | spawned hspawning =>
          have hnone := h.fresh (by rw [hspawning]; rfl)
          rw [ht] at hnone
          cases hnone
      | _ => exact ht
  | reaper a =>
      obtain ⟨-, -, hmonitor, -, -, -, hdeadline, -⟩ := reaper_frame hstep
      exact ⟨hdeadline ▸ id, hmonitor ▸ id⟩
  | monitor a =>
      obtain ⟨stage, flag, rfl, hbefore, -⟩ := monitor_frame hstep
      refine ⟨id, fun ht ↦ ?_⟩
      rw [ht] at hbefore
      cases hbefore
  | deliver a =>
      simp only [Supervision.step] at hstep
      have htogether := h.together
      unfold stepDeliver at hstep
      split at hstep
      · split_ifs at hstep
        cases hstep
        exact ⟨id, id⟩
      · split_ifs at hstep
        cases hstep
        exact ⟨id, id⟩
      · rename_i hdeliver
        split_ifs at hstep
        cases hstep
        refine ⟨id, fun ht ↦ ?_⟩
        unfold Together at htogether
        rw [hdeliver, ht] at htogether
        cases htogether.2
      · split_ifs at hstep
        cases hstep
        exact ⟨id, id⟩
      · split_ifs at hstep
        cases hstep
        exact ⟨id, id⟩
      · split_ifs at hstep
        cases hstep
        exact ⟨id, id⟩
      · split_ifs at hstep
        cases hstep
        exact ⟨id, id⟩
      · cases hstep
  | cancel =>
      simp only [Supervision.step] at hstep
      unfold cancelDeliver at hstep
      split at hstep <;> cases hstep <;> exact ⟨id, id⟩

theorem reaches_stays (h : supervision.Reachable σ)
    (hreach : Relation.ReflTransGen supervision.Step σ τ) (t : ℕ) :
    (σ.deadline = some t → τ.deadline = some t) ∧
      (σ.monitor = .ended t → τ.monitor = .ended t) := by
  induction hreach with
  | refl => exact ⟨id, id⟩
  | tail hbefore hlast ih =>
      obtain ⟨σ₀, hinit, hreach⟩ := h
      obtain ⟨a, hstep⟩ := hlast
      have hstays := (reachable_inv ⟨σ₀, hinit, hreach.trans hbefore⟩).step_stays hstep t
      exact ⟨hstays.1 ∘ ih.1, hstays.2 ∘ ih.2⟩

/-- `run` is over when its deadline, or the end of the monitor, and the timeout of `_reap` have
passed, in every run of the supervision; and such times do come. -/
theorem run_over_in_time (h : supervision.Reachable σ) {t : ℕ}
    (ht : σ.deadline = some t ∨ σ.monitor = .ended t) :
    (∀ τ, Relation.ReflTransGen supervision.Step σ τ → t + reapTimeout < τ.now →
      τ.run.isOver = true) ∧
    ∃ τ, Relation.ReflTransGen supervision.Step σ τ ∧ t + reapTimeout < τ.now := by
  refine ⟨fun τ hreach hlate ↦ ?_, time_passes h _⟩
  have hstays := reaches_stays h hreach t
  obtain ⟨σ₀, hinit, hbefore⟩ := h
  have hinv := reachable_inv ⟨σ₀, hinit, hbefore.trans hreach⟩
  have hover : OverBy τ t := by
    rcases ht with hdeadline | hended
    · exact hinv.deadline t (hstays.1 hdeadline)
    · exact hinv.revoked t (hstays.2 hended)
  cases hrun : τ.run.isOver with
  | true => rfl
  | false => exact absurd (hover.le hrun) (Nat.not_le_of_lt hlate)

/-- A tool that has forked. -/
def forkedState : State :=
  (supervision.run (.start 0) [.deliver .build, .run .spawned, .tool .fork]).get (by decide +kernel)

/-- The monitor has found the turn revoked. -/
def revokedState : State :=
  (supervision.run forkedState [.tick 2000, .monitor (.wake true),
    .monitor (.answer (some false))]).get (by decide +kernel)

theorem run_over_in_time_started :
    (∀ τ, Relation.ReflTransGen supervision.Step forkedState τ → 305000 < τ.now →
      τ.run.isOver = true) ∧
    (∀ τ, Relation.ReflTransGen supervision.Step revokedState τ → 7000 < τ.now →
      τ.run.isOver = true) ∧
    revokedState.run.isOver = false ∧
    ∃ τ, Relation.ReflTransGen supervision.Step revokedState τ ∧ 7000 < τ.now ∧
      τ.run.isOver = true := by
  have hforked : supervision.Reachable forkedState :=
    TransitionSystem.reachable_of_run ⟨0, rfl⟩ (Option.some_get _).symm
  have hrevoked : supervision.Reachable revokedState := by
    have hrun : supervision.run (.start 0) [.deliver .build, .run .spawned, .tool .fork,
        .tick 2000, .monitor (.wake true), .monitor (.answer (some false))] = some revokedState := by
      decide +kernel
    exact TransitionSystem.reachable_of_run ⟨0, rfl⟩ hrun
  have hdeadline : forkedState.deadline = some 300000 := by decide +kernel
  have hended : revokedState.monitor = .ended 2000 := by decide +kernel
  obtain ⟨hover, τ, hreach, hlate⟩ := run_over_in_time hrevoked (.inr hended)
  exact ⟨(run_over_in_time hforked (.inl hdeadline)).1, hover, by decide +kernel,
    τ, hreach, hlate, hover τ hreach hlate⟩

end Discode.Supervision
