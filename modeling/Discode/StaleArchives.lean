import Discode.DeliveryGuarantees

/-!
# Archives that are overtaken by a resume

`handle_archive_thread` reads the status of the session before it claims the delivery.  What
it read stays true as long as the session does not go live under the delivery.  The key row
keeps a resume from doing that once it is inserted, but nothing does before.
-/

set_option autoImplicit false

namespace Discode.NoticeDelivery

open ProcessPool (Machine)

variable {σ τ : DispatcherState} {pid : ℕ} {w w' : Dispatcher} {p : Delivery}

/-! ## The check -/

/-- A delivery that is past its check found a session that is not live, and it still is not. -/
def Delivery.Checked (p : Delivery) (w : Dispatcher) : Prop :=
  ∀ sid threadId ikey, p.notice = .archiveThread (some sid) threadId ikey →
    p.stage ≠ .guard → w.isLive (some sid) = false

/-- No session goes live while an archive of its thread is past its check. -/
def Undisturbed (σ : DispatcherState) :
    ProcessPool.Action EnvAction Notice DeliveryAction → Prop
  | .env (.writeStatus sid status) => status ∈ liveStatuses → ∀ pid p threadId ikey,
      σ.procs pid = some p → p.notice = .archiveThread (some sid) threadId ikey → p.stage = .guard
  | _ => True

theorem Delivery.Checked.congr (h : p.Checked w)
    (hlive : ∀ sid, w'.isLive (some sid) = w.isLive (some sid)) : p.Checked w' :=
  fun sid threadId ikey hnotice hstage ↦ (hlive sid).trans (h sid threadId ikey hnotice hstage)

theorem isLive_commit (w : Dispatcher) (key : DeliveryKey) (archives : Option SessionId)
    (sid : SessionId) : (w.commit key archives).isLive (some sid) = w.isLive (some sid) := by
  simp only [Dispatcher.isLive, Dispatcher.commit, Option.bind_some]
  split
  · cases w.sessions sid <;> rfl
  · rfl

namespace StepEffect

variable {a : DeliveryAction} {q : Option Delivery}

/-- A delivery writes no status. -/
theorem isLive (h : StepEffect pid w p a w' q) (sid : SessionId) :
    w'.isLive (some sid) = w.isLive (some sid) := by
  cases h with
  | @finalize part rest key hrest hstage hkey hopen => exact isLive_commit w key part.archives sid
  | _ => rfl

theorem notice (h : StepEffect pid w p a w' q) {r : Delivery} (hr : q = some r) :
    r.notice = p.notice := by
  cases h <;> cases hr <;> rfl

end StepEffect

/-- Only the check leads past the check. -/
theorem step_guard {a : DeliveryAction} {r : Delivery} (hstage : p.stage = .guard)
    (h : p.step pid w a = some (w', some r)) : a = .readStatus := by
  cases a with
  | readStatus => rfl
  | fail => simp [Delivery.step] at h
  | _ => simp [Delivery.step, hstage] at h

/-- What `handle_archive_thread` makes of the status it reads. -/
theorem not_live_of_readStatus {r : Delivery}
    (h : p.step pid w .readStatus = some (w', some r)) {sid : SessionId}
    {threadId : Option ThreadId} {ikey : String}
    (hnotice : p.notice = .archiveThread (some sid) threadId ikey) :
    w.isLive (some sid) = false := by
  cases hstage : p.stage with
  | guard =>
      cases hlive : w.isLive (some sid) with
      | false => rfl
      | true => simp [Delivery.step, hstage, hnotice, hlive] at h
  | _ => simp [Delivery.step, hstage] at h

theorem Delivery.Checked.step {a : DeliveryAction} {r : Delivery} (hp : p.Checked w)
    (h : p.step pid w a = some (w', some r)) : r.Checked w' := by
  intro sid threadId ikey hnotice hstage
  have heffect := Delivery.step_effect h
  rw [heffect.notice rfl] at hnotice
  rw [heffect.isLive sid]
  by_cases hguard : p.stage = .guard
  · have ha := step_guard hguard h
    subst ha
    exact not_live_of_readStatus h hnotice
  · exact hp sid threadId ikey hnotice hguard

/-! ## Runs -/

/-- Another component's step leaves every check true. -/
theorem checked_env {e : EnvAction} (hok : Undisturbed σ (.env e)) {w : Dispatcher}
    (he : envStep σ.shared e = some w) (hp : σ.procs pid = some p) (hchecked : p.Checked σ.shared) :
    p.Checked w := by
  cases e with
  | tick ms =>
      cases he
      exact hchecked
  | writeStatus sid status =>
      simp only [envStep] at he
      split at he <;> cases he
      intro sid' threadId ikey hnotice hstage
      have hold := hchecked sid' threadId ikey hnotice hstage
      by_cases hsid : sid' = sid
      · subst hsid
        have hnot : status ∉ liveStatuses := fun hlive ↦
          hstage (hok hlive pid p threadId ikey hp hnotice)
        simp only [Dispatcher.isLive, Option.bind_some, Function.update_self, Option.any_some,
          decide_eq_false_iff_not]
        unfold ThreadRow.withStatus
        split <;> exact hnot
      · simpa only [Dispatcher.isLive, Option.bind_some, Function.update_of_ne hsid] using hold
  | requestArchive sid =>
      simp only [envStep] at he
      split at he
      · split at he <;> cases he
        intro sid' threadId ikey hnotice hstage
        have hold := hchecked sid' threadId ikey hnotice hstage
        by_cases hsid : sid' = sid
        · subst hsid
          simp [Dispatcher.isLive, liveStatuses]
        · simpa only [Dispatcher.isLive, Option.bind_some, Function.update_of_ne hsid] using hold
      · cases he
  | rollback other =>
      simp only [envStep] at he
      split at he <;> cases he
      exact hchecked.congr fun _ ↦ rfl

theorem checked_of_reachable (h : dispatcher.ReachableWhen Undisturbed (· = .init) σ) :
    ∀ pid p, σ.procs pid = some p → p.Checked σ.shared := by
  refine h.invariant (I := fun σ ↦ ∀ pid p, σ.procs pid = some p → p.Checked σ.shared)
    (fun _ _ _ _ hp ↦ nomatch hp) fun σ a τ _ hchecked hok hs pid p hp ↦ ?_
  rcases Machine.step_procs hs hp with hold | ⟨n, rfl, -, hspawn⟩ | ⟨b, p₀, rfl, hp₀, hexec⟩
  · have hp₁ := hchecked pid p hold
    obtain ⟨e, w, rfl, he, rfl⟩ | ⟨n, w, q, rfl, hn, rfl⟩ | ⟨other, b, r, w, q, rfl, hr, hb, rfl⟩ :=
      Machine.step_cases hs
    · exact checked_env hok he hold hp₁
    · cases hn
      exact hp₁
    · exact hp₁.congr fun sid ↦ (Delivery.step_effect hb).isLive sid
  · obtain ⟨-, rfl⟩ := Prod.mk.inj (Option.some.inj hspawn)
    intro sid threadId ikey hnotice hstage
    have hn : n = .archiveThread (some sid) threadId ikey := hnotice
    subst hn
    exact absurd rfl hstage
  · exact (hchecked pid p₀ hp₀).step hexec

/-- A step of a delivery that archives the thread, or records that it was archived. -/
def Archives (a : DeliveryAction) (σ τ : DispatcherState) : Prop :=
  a = .perform ∨ τ.shared.sessions ≠ σ.shared.sessions

theorem stale_archive_not_live (h : dispatcher.ReachableWhen Undisturbed (· = .init) σ)
    {sid : SessionId} {threadId : Option ThreadId} {ikey : String} {a : DeliveryAction}
    (hp : σ.procs pid = some p) (hnotice : p.notice = .archiveThread (some sid) threadId ikey)
    (hs : dispatcher.step σ (.exec pid a) = some τ) (ha : Archives a σ τ) :
    σ.shared.isLive (some sid) = false := by
  refine checked_of_reachable h pid p hp sid threadId ikey hnotice fun hguard ↦ ?_
  obtain ⟨p', q, hp', hstep, -⟩ := Machine.step_exec hs
  cases hp.symm.trans hp'
  rcases ha with rfl | hwritten
  · change Delivery.step pid σ.shared p .perform = _ at hstep
    simp [Delivery.step, hguard] at hstep
  · have heffect := Delivery.step_effect hstep
    generalize τ.shared = w' at heffect hwritten
    cases heffect with
    | finalize hrest hstage hkey hopen => exact Stage.noConfusion (hguard.symm.trans hstage)
    | _ => exact hwritten rfl

/-! ## A resume between the check and the call -/

/-- The archive of session 1 in thread 7. -/
def staleArchive : Notice := .archiveThread (some 1) (some 7) "k"

def checkedRun : List (ProcessPool.Action EnvAction Notice DeliveryAction) :=
  [.env (.writeStatus 1 .archived), .spawn staleArchive, .exec 0 .readStatus, .exec 0 .insertKey,
    .exec 0 .selectOutcome]

-- Once the key is inserted, a resume waits.
example : (dispatcher.run (.start .init) (checkedRun ++ [.env (.writeStatus 1 .resuming)])).isNone =
    true := by decide +kernel

def checkedState : DispatcherState :=
  (dispatcher.run (.start .init) checkedRun).get (by decide +kernel)

theorem stale_archive_not_live_checked : ∃ p τ, checkedState.procs 0 = some p ∧
    dispatcher.step checkedState (.exec 0 .perform) = some τ ∧
    checkedState.shared.isLive (some 1) = false := by
  have hrun : dispatcher.run (.start .init) checkedRun = some checkedState :=
    (Option.some_get _).symm
  have hreach : dispatcher.ReachableWhen Undisturbed (· = .init) checkedState := by
    refine ⟨.init, rfl, Machine.ReachesWhen.of_run (fun a ha ρ ↦ ?_) hrun⟩
    simp only [checkedRun, List.mem_cons, List.not_mem_nil, or_false] at ha
    rcases ha with rfl | rfl | rfl | rfl | rfl
    · exact fun hlive ↦ absurd hlive (by decide)
    all_goals trivial
  obtain ⟨p, hp⟩ : ∃ p, checkedState.procs 0 = some p :=
    Option.isSome_iff_exists.mp (by decide +kernel)
  obtain ⟨τ, hτ⟩ : ∃ τ, dispatcher.step checkedState (.exec 0 .perform) = some τ :=
    Option.isSome_iff_exists.mp (by decide +kernel)
  have hnotice : p.notice = staleArchive := by
    have h : (checkedState.procs 0).map Delivery.notice = some staleArchive := by decide +kernel
    rw [hp] at h
    exact Option.some.inj h
  exact ⟨p, τ, hp, hτ, stale_archive_not_live hreach hp hnotice hτ (.inl rfl)⟩

/-- The session is resumed when the delivery has read its status and not yet claimed its key. -/
def overtakenRun : List (ProcessPool.Action EnvAction Notice DeliveryAction) :=
  [.env (.writeStatus 1 .archived), .spawn staleArchive, .exec 0 .readStatus,
    .env (.writeStatus 1 .resuming), .exec 0 .insertKey, .exec 0 .selectOutcome]

theorem archive_after_resume : ∃ σ p τ, DispatcherReachable σ ∧ σ.procs 0 = some p ∧
    p.notice = staleArchive ∧ dispatcher.step σ (.exec 0 .perform) = some τ ∧
    σ.shared.isLive (some 1) = true := by
  obtain ⟨σ, hrun⟩ : ∃ σ, dispatcher.run (.start .init) overtakenRun = some σ :=
    Option.isSome_iff_exists.mp (by decide +kernel)
  have hfacts : (dispatcher.run (.start .init) overtakenRun).map (fun σ ↦
      ((σ.procs 0).map Delivery.notice, (dispatcher.step σ (.exec 0 .perform)).isSome,
        σ.shared.isLive (some 1))) = some (some staleArchive, true, true) := by
    decide +kernel
  rw [hrun] at hfacts
  obtain ⟨hnotice, hsome, hlive⟩ := by simpa using hfacts
  obtain ⟨p, hp, hpn⟩ := hnotice
  obtain ⟨τ, hτ⟩ := Option.isSome_iff_exists.mp hsome
  exact ⟨σ, p, τ, Machine.reachable_of_run rfl hrun, hp, hpn, hτ, hlive⟩

end Discode.NoticeDelivery
