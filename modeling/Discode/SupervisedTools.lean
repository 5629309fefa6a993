import Discode.ToolSupervision

/-!
# Tools do not outlive their turn

The docstring of `ExecSession` promises a cleanup that is safe under cancellation, and one
deadline for output and exit.
-/

set_option autoImplicit false

namespace Discode.Supervision

variable {σ τ : State}

/-! ## The kill -/

/-- `_reap` has killed the group, or is about to. -/
def Reaper.Reaps (r : Reaper) (g : Group) : Prop :=
  match r with
  | .idle => False
  | .scheduled => True
  | .waiting _ | .done => g.members = 0

/-- What is known of the group while `run` is at a stage. -/
inductive Hold where
  /-- None of it lives. -/
  | gone
  | loose
  | reaped

def RunStage.hold : RunStage → Hold
  | notStarted | spawning | draining _ | dropping | ended .output | ended .failed => .gone
  | polling | grace _ | gathering _ | ended (.cancelled .spawning)
  | ended (.cancelled .gathering) => .loose
  | reaping _ | ended .timedOut | ended (.cancelled .nothing) => .reaped

def Hold.Holds (hold : Hold) (r : Reaper) (g : Group) : Prop :=
  match hold with
  | .gone => r = .idle ∧ g.members = 0
  | .loose => r = .idle
  | .reaped => r.Reaps g

def KillInv (σ : State) : Prop := σ.run.hold.Holds σ.reaper σ.group

theorem stepTool_gone {g g' : Group} {a : ToolAction} (h : stepTool g a = some g')
    (hg : g.members = 0) : g'.members = 0 := by
  cases a with
  | fork =>
      simp only [stepTool] at h
      rw [if_pos hg] at h
      cases h
  | leave =>
      simp only [stepTool, hg] at h
      rw [if_pos (Nat.zero_le _)] at h
      cases h
  | leaderExit =>
      simp only [stepTool] at h
      rw [if_pos (.inl hg)] at h
      cases h

theorem Reaper.Reaps.mono {r : Reaper} {g g' : Group} (h : r.Reaps g)
    (hg : g.members = 0 → g'.members = 0) : r.Reaps g' := by
  cases r with
  | idle => exact h
  | scheduled => trivial
  | waiting due => exact hg h
  | done => exact hg h

/-- No step brings a group back. -/
theorem Hold.Holds.mono {hold : Hold} {r : Reaper} {g g' : Group} (h : hold.Holds r g)
    (hg : g.members = 0 → g'.members = 0) : hold.Holds r g' := by
  cases hold with
  | gone => exact ⟨h.1, hg h.2⟩
  | loose => exact h
  | reaped => exact Reaper.Reaps.mono h hg

theorem KillInv.idle (h : KillInv σ) (hrun : σ.run.isTimed = true) : σ.reaper = .idle := by
  unfold KillInv at h
  cases hstage : σ.run with
  | polling | grace due =>
      rw [hstage] at h
      exact h
  | draining due | dropping =>
      rw [hstage] at h
      exact h.1
  | _ => rw [hstage] at hrun; cases hrun

theorem hold_resultOf (ok : Bool) : (RunStage.ended (resultOf ok)).hold = .gone := by
  cases ok <;> rfl

theorem KillInv.run (h : KillInv σ) (hstep : RunStep σ τ) : KillInv τ := by
  have hstage : ∀ {stage}, σ.run = stage → stage.hold.Holds σ.reaper σ.group :=
    fun hrun ↦ hrun ▸ h
  cases hstep with
  | spawned hrun => exact (hstage hrun).1
  | spawnFails hrun =>
      have hold := hstage hrun
      exact hold
  | runaway => exact Hold.Holds.mono h fun _ ↦ rfl
  | poll hrun =>
      have hold := hstage hrun
      exact hold
  | graceEnds hrun ok =>
      unfold KillInv
      rw [hold_resultOf]
      exact ⟨hstage hrun, rfl⟩
  | graceExpires hrun => exact ⟨hstage hrun, rfl⟩
  | drained hrun ok | dropped hrun ok =>
      unfold KillInv
      rw [hold_resultOf]
      exact hstage hrun
  | drainExpires hrun =>
      have hold := hstage hrun
      exact hold
  | timeout hrun | cancelled hrun => exact h.idle hrun
  | gathered hrun => trivial
  | @reaped exc hrun hreaper =>
      have hreaps := hstage hrun
      cases exc <;> exact hreaps
  | cutSpawning hrun survivors => exact (hstage hrun).1
  | cutGathering hrun | cutReaping hrun =>
      have hold := hstage hrun
      exact hold

theorem KillInv.reaper {a : ReaperAction} (h : KillInv σ) (hstep : stepReaper σ a = some τ) :
    KillInv τ := by
  have hreaps : σ.reaper ≠ .idle → σ.run.hold = .reaped := by
    unfold KillInv at h
    intro hidle
    cases hhold : σ.run.hold with
    | gone => rw [hhold] at h; exact absurd h.1 hidle
    | loose => rw [hhold] at h; exact absurd h hidle
    | reaped => rfl
  cases a with
  | kill =>
      simp only [stepReaper] at hstep
      split_ifs at hstep with hscheduled
      cases hstep
      have hhold := hreaps (by rw [hscheduled]; exact Reaper.noConfusion)
      unfold KillInv
      rw [show σ.run.hold = .reaped from hhold]
      rfl
  | finish =>
      simp only [stepReaper] at hstep
      split at hstep
      · rename_i due hwaiting
        cases hstep
        have hhold := hreaps (by rw [hwaiting]; exact Reaper.noConfusion)
        unfold KillInv at h ⊢
        rw [hhold, hwaiting] at h
        rw [hhold]
        exact h
      · cases hstep

/-! ## The deadlines -/

/-- `run` is over within the timeout of `_reap` after `t`. -/
def OverBy (σ : State) (t : ℕ) : Prop :=
  match σ.run with
  | .notStarted | .ended _ => True
  | .reaping _ => match σ.reaper with
      | .waiting due => σ.now ≤ due ∧ due ≤ t + reapTimeout
      | .done => σ.now ≤ t + reapTimeout
      | _ => σ.now ≤ t
  | _ => σ.now ≤ t

/-- `run` has not come to its `except` clause. -/
def RunStage.isActive : RunStage → Bool
  | spawning => true
  | stage => stage.isTimed

theorem OverBy.congr {t : ℕ} (h : OverBy σ t) (hrun : τ.run = σ.run) (hreaper : τ.reaper = σ.reaper)
    (hnow : τ.now = σ.now) : OverBy τ t := by
  unfold OverBy at h ⊢
  rw [hrun, hreaper, hnow]
  exact h

theorem OverBy.le {t : ℕ} (h : OverBy σ t) (hrun : σ.run.isOver = false) :
    σ.now ≤ t + reapTimeout := by
  unfold OverBy at h
  split at h
  · rename_i hstage
    rw [hstage] at hrun
    cases hrun
  · rename_i hstage
    rw [hstage] at hrun
    cases hrun
  · split at h
    · exact Nat.le_trans h.1 h.2
    · exact h
    · exact Nat.le_trans h (Nat.le_add_right _ _)
  · exact Nat.le_trans h (Nat.le_add_right _ _)

theorem OverBy.active {t : ℕ} (h : OverBy σ t) (hrun : σ.run.isActive = true) : σ.now ≤ t := by
  unfold OverBy at h
  cases hstage : σ.run with
  | spawning | polling | grace due | draining due | dropping => simpa only [hstage] using h
  | _ => rw [hstage] at hrun; cases hrun

theorem isActive_of_isTimed {stage : RunStage} (h : stage.isTimed = true) :
    stage.isActive = true := by
  cases stage <;> first | rfl | cases h

theorem OverBy.run {t : ℕ} (h : OverBy σ t) (hstep : RunStep σ τ) : OverBy τ t := by
  have hactive : σ.run.isActive = true → σ.now ≤ t := h.active
  cases hstep with
  | spawned hrun | poll hrun | graceExpires hrun | drainExpires hrun =>
      have hle := hactive (by rw [hrun]; rfl)
      exact hle
  | runaway => exact h.congr rfl rfl rfl
  | timeout hrun | cancelled hrun =>
      have hle := hactive (isActive_of_isTimed hrun)
      exact hle
  | gathered hrun =>
      unfold OverBy at h
      rw [hrun] at h
      exact h
  | _ => trivial

theorem OverBy.reaper {t : ℕ} {a : ReaperAction} (h : OverBy σ t)
    (hstep : stepReaper σ a = some τ) : OverBy τ t := by
  cases a with
  | kill =>
      simp only [stepReaper] at hstep
      split_ifs at hstep with hscheduled
      cases hstep
      cases hstage : σ.run with
      | reaping exc =>
          unfold OverBy at h ⊢
          rw [hstage, hscheduled] at h
          exact ⟨Nat.le_add_right _ _, Nat.add_le_add_right h _⟩
      | _ =>
          unfold OverBy at h ⊢
          rw [hstage] at h
          exact h
  | finish =>
      simp only [stepReaper] at hstep
      split at hstep
      · rename_i due hwaiting
        cases hstep
        cases hstage : σ.run with
        | reaping exc =>
            unfold OverBy at h ⊢
            rw [hstage, hwaiting] at h
            exact Nat.le_trans h.1 h.2
        | _ =>
            unfold OverBy at h ⊢
            rw [hstage] at h
            exact h
      · cases hstep

/-- Time passes only as far as the timers of `run` and `_reap` let it. -/
theorem OverBy.tick {t ms : ℕ} (h : OverBy σ t) (hkill : KillInv σ)
    (hactive : σ.run.isActive = true → σ.now + ms ≤ t) (hurgent : σ.isUrgent = false)
    (htimers : ∀ due ∈ σ.timers, σ.now + ms ≤ due) : OverBy { σ with now := σ.now + ms } t := by
  have hwaiting : ∀ due, σ.reaper = .waiting due → σ.now + ms ≤ due := by
    intro due hreaper
    refine htimers due (List.mem_append_right _ ?_)
    rw [hreaper]
    exact List.mem_singleton_self due
  unfold OverBy at h ⊢
  unfold State.isUrgent at hurgent
  simp only [Bool.or_eq_false_iff] at hurgent
  obtain ⟨⟨⟨-, hscheduled⟩, hstage⟩, -⟩ := hurgent
  cases hrun : σ.run with
  | notStarted | ended outcome => trivial
  | spawning | polling | grace due | draining due | dropping =>
      have hle := hactive (by rw [hrun]; rfl)
      simpa only [hrun] using hle
  | gathering exc =>
      rw [hrun] at hstage
      cases hstage
  | reaping exc =>
      rw [hrun] at h hstage
      unfold KillInv at hkill
      rw [hrun] at hkill
      cases hreaper : σ.reaper with
      | idle =>
          rw [hreaper] at hkill
          exact hkill.elim
      | scheduled =>
          rw [hreaper] at hscheduled
          cases hscheduled
      | waiting due =>
          rw [hreaper] at h
          exact ⟨hwaiting due hreaper, h.2⟩
      | done =>
          rw [hreaper] at hstage
          cases hstage

/-! ## The invariant -/

/-- No process has been spawned. -/
def RunStage.isFresh : RunStage → Bool
  | notStarted | spawning => true
  | _ => false

/-- How far `_deliver` and its tasks are. -/
def Together (σ : State) : Prop :=
  match σ.deliver with
  | .building => σ.run = .notStarted ∧ σ.monitor = .notStarted
  | .waiting => True
  | .cleaning _ => σ.run.isActive = true → σ.cancelRun = true
  | .ended _ => σ.run.isOver = true ∧ σ.monitor.isOver = true

structure Inv (σ : State) : Prop where
  kill : KillInv σ
  together : Together σ
  fresh : σ.run.isFresh = true → σ.deadline = none
  spawned : σ.run.isFresh = false → σ.run.isOver = false → ∃ t, σ.deadline = some t
  deadline : ∀ t, σ.deadline = some t → OverBy σ t
  reaper : ∀ due, σ.reaper = .waiting due → due ≤ σ.now + reapTimeout
  revoked : ∀ t, σ.monitor = .ended t → OverBy σ t

theorem RunStep.not_over (h : RunStep σ τ) : σ.run.isOver = false := by
  cases h with
  | runaway hrun | timeout hrun | cancelled hrun =>
      cases hstage : σ.run <;> first | rfl | (rw [hstage] at hrun; cases hrun)
  | spawned hrun | spawnFails hrun | poll hrun | graceEnds hrun | graceExpires hrun
  | drained hrun | drainExpires hrun | dropped hrun | gathered hrun | reaped hrun
  | cutSpawning hrun | cutGathering hrun | cutReaping hrun => rw [hrun]; rfl

theorem RunStep.frame (h : RunStep σ τ) : τ.deliver = σ.deliver ∧ τ.monitor = σ.monitor ∧
    τ.now = σ.now := by
  cases h <;> exact ⟨rfl, rfl, rfl⟩

theorem isFresh_of_isTimed {stage : RunStage} (h : stage.isTimed = true) :
    stage.isFresh = false := by
  cases stage <;> first | rfl | cases h

theorem RunStep.not_fresh (h : RunStep σ τ) : τ.run.isFresh = false := by
  cases h with
  | runaway hrun => exact isFresh_of_isTimed hrun
  | _ => rfl

theorem RunStep.deadline (h : RunStep σ τ) :
    τ.deadline = σ.deadline ∧ (τ.run.isOver = false → σ.run.isFresh = false) ∨
    τ.deadline = some (σ.now + execTimeout) ∧ τ.run = .polling := by
  cases h with
  | spawned hrun => exact .inr ⟨rfl, rfl⟩
  | runaway hrun | timeout hrun | cancelled hrun =>
      exact .inl ⟨rfl, fun _ ↦ isFresh_of_isTimed hrun⟩
  | poll hrun | graceExpires hrun | drainExpires hrun | gathered hrun =>
      exact .inl ⟨rfl, fun _ ↦ (by rw [hrun]; rfl)⟩
  | _ => exact .inl ⟨rfl, fun h ↦ (by cases h)⟩

theorem RunStep.active (h : RunStep σ τ) (hactive : τ.run.isActive = true) :
    σ.run.isActive = true := by
  cases h with
  | runaway hrun | timeout hrun | cancelled hrun => exact isActive_of_isTimed hrun
  | spawned hrun | poll hrun | graceExpires hrun | drainExpires hrun => rw [hrun]; rfl
  | _ => cases hactive

theorem RunStep.reaper (h : RunStep σ τ) : τ.reaper = σ.reaper ∨ τ.reaper = .scheduled := by
  cases h with
  | gathered => exact .inr rfl
  | _ => exact .inl rfl

theorem not_active_of_cancelRun {survivors : ℕ} (h : cancelRun σ survivors = some τ) :
    τ.run.isActive = false := by
  unfold cancelRun at h
  split at h <;> cases h <;> rfl

theorem Together.run {a : RunAction} (h : Together σ) (hstep : step σ (.run a) = some τ) :
    Together τ := by
  obtain ⟨hrun, hcancel⟩ := step_run hstep
  obtain ⟨hdeliver, hmonitor, -⟩ := hrun.frame
  have hover := hrun.not_over
  unfold Together at h ⊢
  rw [hdeliver]
  split at h
  · rw [h.1] at hover
    cases hover
  · trivial
  · intro hactive
    obtain ⟨survivors, hcut⟩ := hcancel (h (hrun.active hactive))
    rw [not_active_of_cancelRun hcut] at hactive
    cases hactive
  · rw [h.1] at hover
    cases hover

theorem Inv.run {a : RunAction} (h : Inv σ) (hstep : step σ (.run a) = some τ) : Inv τ := by
  have hrun := (step_run hstep).1
  obtain ⟨-, hmonitor, hnow⟩ := hrun.frame
  refine ⟨h.kill.run hrun, h.together.run hstep, fun hfresh ↦ ?_, fun _ hover ↦ ?_,
    fun t ht ↦ ?_, fun due hdue ↦ ?_, fun t ht ↦ (h.revoked t (hmonitor ▸ ht)).run hrun⟩
  · rw [hrun.not_fresh] at hfresh
    cases hfresh
  · rcases hrun.deadline with ⟨hsame, hfresh⟩ | ⟨hset, -⟩
    · rw [hsame]
      exact h.spawned (hfresh hover) hrun.not_over
    · exact ⟨_, hset⟩
  · rcases hrun.deadline with ⟨hsame, -⟩ | ⟨hset, hpolling⟩
    · exact (h.deadline t (hsame ▸ ht)).run hrun
    · rw [hset] at ht
      cases ht
      unfold OverBy
      rw [hpolling, hnow]
      exact Nat.le_add_right _ _
  · rw [hnow]
    rcases hrun.reaper with hsame | hscheduled
    · exact h.reaper due (hsame ▸ hdue)
    · rw [hscheduled] at hdue
      cases hdue

/-- The task of `_reap` touches the group only. -/
theorem reaper_frame {a : ReaperAction} (hstep : stepReaper σ a = some τ) :
    τ.run = σ.run ∧ τ.deliver = σ.deliver ∧ τ.monitor = σ.monitor ∧
      τ.cancelRun = σ.cancelRun ∧ τ.cancelMonitor = σ.cancelMonitor ∧
      τ.cancelDeliver = σ.cancelDeliver ∧ τ.deadline = σ.deadline ∧
      ∀ due, τ.reaper = .waiting due → due ≤ τ.now + reapTimeout := by
  cases a with
  | kill =>
      simp only [stepReaper] at hstep
      split_ifs at hstep
      cases hstep
      refine ⟨rfl, rfl, rfl, rfl, rfl, rfl, rfl, fun due hdue ↦ ?_⟩
      cases hdue
      exact Nat.le_refl _
  | finish =>
      simp only [stepReaper] at hstep
      split at hstep <;> cases hstep
      exact ⟨rfl, rfl, rfl, rfl, rfl, rfl, rfl, fun due hdue ↦ by cases hdue⟩

theorem Inv.reaperStep {a : ReaperAction} (h : Inv σ) (hstep : stepReaper σ a = some τ) :
    Inv τ := by
  obtain ⟨hrun, hdeliver, hmonitor, hcancel, -, -, hdeadline, hreaper⟩ := reaper_frame hstep
  refine ⟨h.kill.reaper hstep, ?_, ?_, ?_, fun t ht ↦ ?_, hreaper, fun t ht ↦ ?_⟩
  · unfold Together
    rw [hdeliver, hrun, hmonitor, hcancel]
    exact h.together
  · rw [hrun, hdeadline]
    exact h.fresh
  · rw [hrun, hdeadline]
    exact h.spawned
  · exact (h.deadline t (hdeadline ▸ ht)).reaper hstep
  · exact (h.revoked t (hmonitor ▸ ht)).reaper hstep

/-- A step that touches neither `run` nor the reaper, at the same time. -/
theorem Inv.keep (h : Inv σ) (htogether : Together τ) (hrun : τ.run = σ.run)
    (hreaper : τ.reaper = σ.reaper) (hgroup : σ.group.members = 0 → τ.group.members = 0)
    (hdeadline : τ.deadline = σ.deadline) (hnow : τ.now = σ.now)
    (hmonitor : ∀ t, τ.monitor = .ended t → OverBy τ t) : Inv τ where
  kill := by
    unfold KillInv
    rw [hrun, hreaper]
    exact Hold.Holds.mono h.kill hgroup
  together := htogether
  fresh := by rw [hrun, hdeadline]; exact h.fresh
  spawned := by rw [hrun, hdeadline]; exact h.spawned
  deadline t ht := (h.deadline t (hdeadline ▸ ht)).congr hrun hreaper hnow
  reaper due hdue := by
    rw [hnow]
    exact h.reaper due (hreaper ▸ hdue)
  revoked := hmonitor

theorem Inv.tool {a : ToolAction} {g : Group} (h : Inv σ) (hstep : stepTool σ.group a = some g) :
    Inv { σ with group := g } :=
  h.keep h.together rfl rfl (stepTool_gone hstep) rfl rfl fun t ht ↦
    (h.revoked t ht).congr rfl rfl rfl

/-- Whatever is going on, `run` is over soon after now. -/
theorem Inv.overBy_now (h : Inv σ) : OverBy σ σ.now := by
  unfold OverBy
  split
  · trivial
  · trivial
  · rename_i exc hrun
    obtain ⟨t, ht⟩ := h.spawned (by rw [hrun]; rfl) (by rw [hrun]; rfl)
    have hover := h.deadline t ht
    unfold OverBy at hover
    rw [hrun] at hover
    split
    · rename_i due hwaiting
      rw [hwaiting] at hover
      exact ⟨hover.1, h.reaper due hwaiting⟩
    · exact Nat.le_add_right _ _
    · exact Nat.le_refl _
  · exact Nat.le_refl _

/-- A step of `monitor` ends it now, if it ends it. -/
theorem monitor_frame {a : MonitorAction} (hstep : stepMonitor σ a = some τ) :
    ∃ stage flag, τ = { σ with monitor := stage, cancelMonitor := flag } ∧
      σ.monitor.isOver = false ∧ (∀ t, stage = .ended t → t = σ.now) ∧ flag = false := by
  unfold stepMonitor at hstep
  split at hstep
  · rename_i due allowed hmonitor
    split_ifs at hstep with hguard <;> cases hstep
    · exact ⟨_, _, rfl, by rw [hmonitor]; rfl, fun t ht ↦ (by cases ht),
        Bool.eq_false_iff.mpr fun hcancel ↦ hguard (.inl hcancel)⟩
    · exact ⟨_, _, rfl, by rw [hmonitor]; rfl, fun t ht ↦ by cases ht; rfl,
        Bool.eq_false_iff.mpr fun hcancel ↦ hguard (.inl hcancel)⟩
  · rename_i valid hmonitor
    split_ifs at hstep with hcancel <;> cases hstep
    · exact ⟨_, _, rfl, by rw [hmonitor]; rfl, fun t ht ↦ by cases ht; rfl,
        Bool.eq_false_iff.mpr hcancel⟩
    · exact ⟨_, _, rfl, by rw [hmonitor]; rfl, fun t ht ↦ (by cases ht),
        Bool.eq_false_iff.mpr hcancel⟩
  · rename_i due hmonitor
    split_ifs at hstep
    cases hstep
    exact ⟨_, _, rfl, by rw [hmonitor]; rfl, fun t ht ↦ by cases ht; rfl, rfl⟩
  · rename_i hmonitor
    split_ifs at hstep
    cases hstep
    exact ⟨_, _, rfl, by rw [hmonitor]; rfl, fun t ht ↦ by cases ht; rfl, rfl⟩
  · cases hstep

theorem Inv.monitorStep {a : MonitorAction} (h : Inv σ) (hstep : stepMonitor σ a = some τ) :
    Inv τ := by
  obtain ⟨stage, flag, rfl, hbefore, hended, -⟩ := monitor_frame hstep
  refine h.keep ?_ rfl rfl id rfl rfl fun t ht ↦ ?_
  · have htogether := h.together
    unfold Together at htogether ⊢
    dsimp only
    cases hdeliver : σ.deliver with
    | building =>
        rw [hdeliver] at htogether
        rw [htogether.2] at hbefore
        cases hbefore
    | waiting => trivial
    | cleaning delivery =>
        rw [hdeliver] at htogether
        exact htogether
    | ended delivery =>
        rw [hdeliver] at htogether
        rw [htogether.2] at hbefore
        cases hbefore
  · rw [hended t ht]
    exact h.overBy_now.congr rfl rfl rfl

theorem isOver_of_isActive {stage : RunStage} (h : stage.isActive = true) :
    stage.isOver = false := by
  cases stage <;> first | rfl | cases h

theorem Inv.clean (h : Inv σ) (delivery : Delivery) : Inv (σ.clean delivery) := by
  refine h.keep (fun hactive ↦ ?_) rfl rfl id rfl rfl fun t ht ↦ (h.revoked t ht).congr rfl rfl rfl
  exact congrArg not (isOver_of_isActive hactive)

/-- A step of `_deliver` that leaves its tasks alone. -/
theorem Inv.move (h : Inv σ) {stage : DeliverStage} {flag : Bool}
    (htogether : Together { σ with deliver := stage, cancelDeliver := flag }) :
    Inv { σ with deliver := stage, cancelDeliver := flag } :=
  h.keep htogether rfl rfl id rfl rfl fun t ht ↦ (h.revoked t ht).congr rfl rfl rfl

/-- `_deliver` starts its two tasks. -/
theorem Inv.build (h : Inv σ) (hrun : σ.run = .notStarted) {due : ℕ} :
    Inv { σ with run := .spawning, monitor := .sleeping due, deliver := .waiting } := by
  have hkill : σ.reaper = .idle ∧ σ.group.members = 0 := by
    have hkill := h.kill
    unfold KillInv at hkill
    rw [hrun] at hkill
    exact hkill
  have hnone : σ.deadline = none := h.fresh (by rw [hrun]; rfl)
  refine ⟨hkill, trivial, fun _ ↦ hnone, fun hfresh ↦ ?_, fun t ht ↦ ?_, h.reaper, fun t ht ↦ ?_⟩
  · cases hfresh
  · rw [hnone] at ht
    cases ht
  · cases ht

theorem Inv.deliverStep {a : DeliverAction} (h : Inv σ) (hstep : stepDeliver σ a = some τ) :
    Inv τ := by
  have htogether := h.together
  have hbuilding : σ.deliver = .building → σ.run = .notStarted ∧ σ.monitor = .notStarted := by
    intro hdeliver
    unfold Together at htogether
    rw [hdeliver] at htogether
    exact htogether
  have hstop : σ.deliver = .building → ∀ d flag,
      Inv { σ with deliver := .ended d, cancelDeliver := flag } := by
    intro hdeliver d flag
    obtain ⟨hrun, hmonitor⟩ := hbuilding hdeliver
    refine h.move ⟨?_, ?_⟩
    · dsimp only
      rw [hrun]
      rfl
    · dsimp only
      rw [hmonitor]
      rfl
  unfold stepDeliver at hstep
  split at hstep
  · rename_i hdeliver
    split_ifs at hstep
    cases hstep
    exact hstop hdeliver _ _
  · rename_i hdeliver
    split_ifs at hstep
    cases hstep
    exact hstop hdeliver _ _
  · rename_i hdeliver
    split_ifs at hstep
    cases hstep
    exact h.build (hbuilding hdeliver).1
  · rename_i hdeliver
    split_ifs at hstep
    cases hstep
    exact hstop hdeliver _ _
  · split_ifs at hstep
    cases hstep
    exact h.clean _
  · split_ifs at hstep
    cases hstep
    exact h.clean _
  · rename_i delivery hdeliver
    split_ifs at hstep with hover
    cases hstep
    exact h.move ((Bool.and_eq_true _ _).mp hover)
  · cases hstep

theorem Inv.cancelStep (h : Inv σ) (hstep : cancelDeliver σ = some τ) : Inv τ := by
  unfold cancelDeliver at hstep
  split at hstep
  · cases hstep
    exact h.move h.together
  · cases hstep
    exact h.move h.together
  · cases hstep
    exact h.clean _
  · cases hstep

theorem isTimed_or_spawning {stage : RunStage} (h : stage.isActive = true) :
    stage = .spawning ∨ stage.isTimed = true := by
  cases stage with
  | spawning => exact .inl rfl
  | _ => exact .inr h

/-- Time stands still for a `run` whose monitor is over. -/
theorem Inv.not_active (h : Inv σ) (hurgent : σ.isUrgent = false) {t : ℕ}
    (hmonitor : σ.monitor = .ended t) : σ.run.isActive = false := by
  unfold State.isUrgent at hurgent
  simp only [Bool.or_eq_false_iff] at hurgent
  obtain ⟨⟨⟨⟨⟨hcancel, -⟩, -⟩, -⟩, -⟩, hwaiting⟩ := hurgent
  have htogether := h.together
  unfold Together at htogether
  cases hdeliver : σ.deliver with
  | building =>
      rw [hdeliver, hmonitor] at htogether
      cases htogether.2
  | waiting =>
      rw [hdeliver, hmonitor] at hwaiting
      simp [MonitorStage.isOver] at hwaiting
  | cleaning delivery =>
      rw [hdeliver, hcancel] at htogether
      exact Bool.eq_false_iff.mpr fun hactive ↦ Bool.noConfusion (htogether hactive)
  | ended delivery =>
      rw [hdeliver] at htogether
      refine Bool.eq_false_iff.mpr fun hactive ↦ ?_
      rw [isOver_of_isActive hactive] at htogether
      cases htogether.1

theorem Inv.tick {ms : ℕ} (h : Inv σ) (hurgent : σ.isUrgent = false)
    (htimers : ∀ due ∈ σ.timers, σ.now + ms ≤ due) : Inv { σ with now := σ.now + ms } where
  kill := h.kill
  together := h.together
  fresh := h.fresh
  spawned := h.spawned
  deadline t ht := by
    refine (h.deadline t ht).tick h.kill (fun hactive ↦ ?_) hurgent htimers
    rcases isTimed_or_spawning hactive with hspawning | htimed
    · have hnone := h.fresh (by rw [hspawning]; rfl)
      rw [show σ.deadline = some t from ht] at hnone
      cases hnone
    · refine htimers t ?_
      unfold State.timers
      rw [if_pos htimed, show σ.deadline = some t from ht]
      exact List.mem_append_left _ (List.mem_append_left _ (List.mem_singleton_self t))
  reaper due hdue := Nat.le_trans (h.reaper due hdue)
    (Nat.add_le_add_right (Nat.le_add_right _ _) _)
  revoked t ht := by
    refine (h.revoked t ht).tick h.kill (fun hactive ↦ ?_) hurgent htimers
    rw [h.not_active hurgent ht] at hactive
    cases hactive

theorem Inv.start (now : ℕ) : Inv (.start now) := by
  refine ⟨⟨rfl, rfl⟩, ⟨rfl, rfl⟩, fun _ ↦ rfl, fun h ↦ ?_, fun t ht ↦ ?_, fun due hdue ↦ ?_,
    fun t ht ↦ ?_⟩
  · cases h
  · cases ht
  · cases hdue
  · cases ht

theorem Inv.step {a : Action} (h : Inv σ) (hstep : step σ a = some τ) : Inv τ := by
  cases a with
  | tick ms =>
      simp only [Supervision.step] at hstep
      split_ifs at hstep with hguard
      cases hstep
      exact h.tick hguard.1 hguard.2
  | tool a =>
      simp only [Supervision.step] at hstep
      obtain ⟨g, hg, rfl⟩ := Option.map_eq_some_iff.mp hstep
      exact h.tool hg
  | run a => exact h.run hstep
  | reaper a => exact h.reaperStep hstep
  | monitor a => exact h.monitorStep hstep
  | deliver a => exact h.deliverStep hstep
  | cancel => exact h.cancelStep hstep

theorem reachable_inv (h : supervision.Reachable σ) : Inv σ := by
  refine h.invariant (fun σ hinit ↦ ?_) fun σ τ a hinv hstep ↦ hinv.step hstep
  obtain ⟨now, rfl⟩ := hinit
  exact .start now

/-! ## The group is gone -/

/-- The reply has the output of the tool. -/
def DeliverStage.isOutput : DeliverStage → Bool
  | cleaning .output | ended .output => true
  | _ => false

/-- An output that is delivered is the one that `run` has returned. -/
def OutputInv (σ : State) : Prop := σ.deliver.isOutput = true → σ.run = .ended .output

theorem OutputInv.deliverStep {a : DeliverAction} (h : OutputInv σ)
    (hstep : stepDeliver σ a = some τ) : OutputInv τ := by
  unfold stepDeliver at hstep
  split at hstep
  · split_ifs at hstep
    cases hstep
    exact fun houtput ↦ by cases houtput
  · split_ifs at hstep
    cases hstep
    exact fun houtput ↦ by cases houtput
  · split_ifs at hstep
    cases hstep
    exact fun houtput ↦ by cases houtput
  · split_ifs at hstep
    cases hstep
    exact fun houtput ↦ by cases houtput
  · split_ifs at hstep
    cases hstep
    intro houtput
    unfold State.clean deliveryOf at houtput ⊢
    dsimp only at houtput ⊢
    split_ifs at houtput with hmonitor hrun
    · cases houtput
    · exact hrun
    · cases houtput
  · split_ifs at hstep
    cases hstep
    exact fun houtput ↦ by cases houtput
  · rename_i delivery hdeliver
    split_ifs at hstep
    cases hstep
    intro houtput
    refine h ?_
    rw [hdeliver]
    cases delivery with
    | output => rfl
    | _ => cases houtput
  · cases hstep

theorem OutputInv.step {a : Action} (h : OutputInv σ) (hstep : step σ a = some τ) :
    OutputInv τ := by
  cases a with
  | tick ms =>
      simp only [Supervision.step] at hstep
      split_ifs at hstep
      cases hstep
      exact h
  | tool a =>
      simp only [Supervision.step] at hstep
      obtain ⟨g, -, rfl⟩ := Option.map_eq_some_iff.mp hstep
      exact h
  | run a =>
      have hrun := (step_run hstep).1
      intro houtput
      rw [hrun.frame.1] at houtput
      have hover := hrun.not_over
      rw [h houtput] at hover
      cases hover
  | reaper a =>
      obtain ⟨hrun, hdeliver, -⟩ := reaper_frame hstep
      unfold OutputInv
      rw [hrun, hdeliver]
      exact h
  | monitor a =>
      obtain ⟨stage, flag, rfl, -⟩ := monitor_frame hstep
      exact h
  | deliver a => exact h.deliverStep hstep
  | cancel =>
      simp only [Supervision.step] at hstep
      unfold cancelDeliver at hstep
      split at hstep <;> cases hstep
      · rename_i hdeliver
        exact h
      · rename_i hdeliver
        exact h
      · exact fun houtput ↦ by cases houtput

theorem reachable_outputInv (h : supervision.Reachable σ) : OutputInv σ := by
  refine h.invariant (fun σ hinit ↦ ?_) fun σ τ a hinv hstep ↦ hinv.step hstep
  obtain ⟨now, rfl⟩ := hinit
  exact fun houtput ↦ by cases houtput

/-- `run` was cancelled while it started the tool, or while it gathered its readers. -/
def RunStage.isCut : RunStage → Bool
  | ended (.cancelled .spawning) | ended (.cancelled .gathering) => true
  | _ => false

theorem Inv.members (h : Inv σ) (hover : σ.run.isOver = true) (hcut : σ.run.isCut = false)
    (hreaper : σ.reaper ≠ .scheduled) : σ.group.members = 0 := by
  have hkill := h.kill
  have hreaps : σ.reaper.Reaps σ.group → σ.group.members = 0 := by
    unfold Reaper.Reaps
    split
    · exact False.elim
    · rename_i hscheduled
      exact absurd hscheduled hreaper
    · exact id
    · exact id
  unfold KillInv at hkill
  cases hrun : σ.run with
  | notStarted => rw [hrun] at hkill; exact hkill.2
  | ended outcome =>
      rw [hrun] at hkill hcut
      cases outcome with
      | output | failed => exact hkill.2
      | timedOut => exact hreaps hkill
      | cancelled cut =>
          cases cut with
          | nothing => exact hreaps hkill
          | spawning | gathering => cases hcut
  | _ => rw [hrun] at hover; cases hover

/-- Once `_deliver` is over no process of the group lives, except where a cancellation has cut the
start or the cleanup of `run` short.  A reply with the output of a tool is no such exception. -/
theorem no_tool_outlives_turn (h : supervision.Reachable σ) {delivery : Delivery}
    (hdeliver : σ.deliver = .ended delivery) (hreaper : σ.reaper ≠ .scheduled) :
    (σ.run.isCut = false → σ.group.members = 0) ∧
      (delivery = .output → σ.run = .ended .output ∧ σ.group.members = 0) := by
  have hinv := reachable_inv h
  have hover : σ.run.isOver = true := by
    have htogether := hinv.together
    unfold Together at htogether
    rw [hdeliver] at htogether
    exact htogether.1
  have hgone := fun hcut ↦ hinv.members hover hcut hreaper
  refine ⟨hgone, fun houtput ↦ ?_⟩
  have hrun := reachable_outputInv h (by rw [hdeliver, houtput]; rfl)
  exact ⟨hrun, hgone (by rw [hrun]; rfl)⟩

/-- A tool that leaves a process behind; `run` kills it and returns the output. -/
def servedTurn : List Action :=
  [.deliver .build, .run .spawned, .tool .fork, .tool .leaderExit, .run .poll, .tick pipeGrace,
    .run (.waited false true), .run (.waited true true), .deliver .proceed, .monitor .cancelled,
    .deliver .finish]

/-- Execution is disabled just when the deadline has passed. -/
def cutTurn : List Action :=
  [.deliver .build, .run .spawned, .tick execTimeout, .run .timeout, .monitor (.wake false),
    .deliver .proceed, .run (.cancelled 0), .deliver .finish]

theorem no_tool_outlives_turn_served : ∃ σ, supervision.Reachable σ ∧
    σ.deliver = .ended .output ∧ σ.run = .ended .output ∧ σ.group.members = 0 := by
  have hrun : supervision.run (.start 0) servedTurn = some
      ⟨2000, ⟨0, true⟩, some 300000, .ended .output, false, .idle, .ended 2000, false,
        .ended .output, false⟩ := by decide +kernel
  have hreach := TransitionSystem.reachable_of_run (M := supervision) ⟨0, rfl⟩ hrun
  have hgone := (no_tool_outlives_turn hreach rfl Reaper.noConfusion).2 rfl
  exact ⟨_, hreach, rfl, hgone⟩

/-- A cancellation of the cleanup does leave the tool running. -/
theorem cut_turn_leaves_tool : ∃ σ, supervision.Reachable σ ∧ σ.deliver = .ended .apology ∧
    σ.isUrgent = false ∧ σ.reaper = .idle ∧ σ.group.members = 1 := by
  have hrun : supervision.run (.start 0) cutTurn = some
      ⟨300000, ⟨1, false⟩, some 300000, .ended (.cancelled .gathering), false, .idle,
        .ended 300000, false, .ended .apology, false⟩ := by decide +kernel
  exact ⟨_, TransitionSystem.reachable_of_run (M := supervision) ⟨0, rfl⟩ hrun, rfl,
    by decide +kernel, rfl, rfl⟩

end Discode.Supervision
