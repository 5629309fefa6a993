import Discode.DeliveryProof

/-!
# What deliveries of notices guarantee

The facts of the proof in terms of runs, with a complete delivery of a terminal notice as an
instance, and the two ways in which the guarantee stays below exactly-once.
-/

set_option autoImplicit false

namespace Discode.NoticeDelivery

open ProcessPool (Machine)

structure Guarantees (σ : DispatcherState) : Prop where
  /-- A side effect is not started once its key is done. -/
  started : ∀ later pid notice key earlier,
    σ.shared.log = later ++ .attempted pid notice (some key) :: earlier → ¬ Finalized earlier key
  /-- One already started takes place after that only if its transaction was ended meanwhile. -/
  performed : ∀ later pid key earlier,
    σ.shared.log = later ++ .performed pid (some key) :: earlier →
    Interrupted earlier pid key ∨ ¬ Finalized earlier key
  done : ∀ key, σ.shared.keys key = some (some .done) ↔ Finalized σ.shared.log key
  committed : ∀ later pid key archives earlier,
    σ.shared.log = later ++ .finalized pid key archives :: earlier →
    .returned pid (some key) ∈ earlier
  archivedAt : ∀ sid row, σ.shared.sessions sid = some row →
    row.discordThreadArchivedAt.isSome = true →
    ∃ pid key, .finalized pid key (some sid) ∈ σ.shared.log
  /-- The only step of a delivery that writes outcomes or archive timestamps. -/
  written : ∀ pid a τ, dispatcher.step σ (.exec pid a) = some τ →
    τ.shared.keys ≠ σ.shared.keys ∨ τ.shared.sessions ≠ σ.shared.sessions →
    ∃ key archives, τ.shared.log = .finalized pid key archives :: σ.shared.log
  /-- A side effect that fails leaves its key without an outcome. -/
  failed : ∀ pid p part rest key τ, σ.procs pid = some p → p.rest = part :: rest →
    part.key = some key → dispatcher.step σ (.exec pid .effectRaises) = some τ →
    τ.shared.keys = σ.shared.keys ∧ (σ.shared.isOpen pid = true →
      τ.shared.keys key ≠ some (some .done) ∧
      ∀ ρ, dispatcher.Reaches τ ρ → ρ.shared.keys key = some (some .done) →
        Repeated τ.shared.log ρ.shared.log key)
  /-- A delivery that finds no outcome starts the side effect. -/
  retried : ∀ pid p part rest key τ, σ.procs pid = some p → p.rest = part :: rest →
    part.key = some key → σ.shared.isOpen pid = true → σ.shared.keys key ≠ some (some .done) →
    dispatcher.step σ (.exec pid .selectOutcome) = some τ →
    τ.shared.log = .attempted pid p.notice (some key) :: σ.shared.log ∧
      τ.procs pid = some { p with stage := .acting false }
  /-- A delivery is acknowledged as handled only when all its keys are done. -/
  handled : ∀ later pid notice earlier, σ.shared.log = later ++ .handled pid notice :: earlier →
    AllFinalized earlier notice.parts
  /-- The archive stage of a terminal notice comes after the commit of its post stage. -/
  ordered : ∀ later pid sessionId threadId ikey message thenArchive earlier, message ≠ "" →
    σ.shared.log = later ++ .attempted pid
      (.terminal sessionId threadId ikey message thenArchive)
      (archivePart sessionId threadId ikey).key :: earlier →
    Finalized earlier ⟨.terminalNoticePost, ikey ++ "#post"⟩

/-! ## Single steps -/

variable {σ τ : DispatcherState} {pid : ℕ}

/-- A step of a live delivery in terms of its effect. -/
theorem step_effect {a : DeliveryAction} (h : dispatcher.step σ (.exec pid a) = some τ) :
    ∃ p q, σ.procs pid = some p ∧ StepEffect pid σ.shared p a τ.shared q ∧
      τ.procs = Function.update σ.procs pid q := by
  obtain ⟨p, q, hp, hstep, hprocs⟩ := Machine.step_exec h
  exact ⟨p, q, hp, Delivery.step_effect hstep, hprocs⟩

theorem written_of_step {a : DeliveryAction} (h : dispatcher.step σ (.exec pid a) = some τ)
    (hne : τ.shared.keys ≠ σ.shared.keys ∨ τ.shared.sessions ≠ σ.shared.sessions) :
    ∃ key archives, τ.shared.log = .finalized pid key archives :: σ.shared.log := by
  obtain ⟨p, q, -, heffect, -⟩ := step_effect h
  generalize τ.shared = w' at heffect hne ⊢
  cases heffect with
  | finalize => exact ⟨_, _, rfl⟩
  | _ =>
      rcases hne with hne | hne
      · exact (hne rfl).elim
      · exact (hne rfl).elim

theorem failed_of_raise (hσ : DispatcherReachable σ) {p : Delivery} {part : Part}
    {rest : List Part} {key : DeliveryKey} (hp : σ.procs pid = some p)
    (hrest : p.rest = part :: rest) (hkey : part.key = some key)
    (h : dispatcher.step σ (.exec pid .effectRaises) = some τ) :
    τ.shared.keys = σ.shared.keys ∧ (σ.shared.isOpen pid = true →
      τ.shared.locks key = none ∧ ¬ Finalized τ.shared.log key) := by
  obtain ⟨p', q, hp', heffect, -⟩ := step_effect h
  cases hp.symm.trans hp'
  generalize τ.shared = w' at heffect ⊢
  cases heffect with
  | lost _ ha => rcases ha with ha | ha <;> cases ha
  | raise hrest' hstage =>
      refine ⟨rfl, fun hopen ↦ ?_⟩
      have hann := hσ.annotated
      have hacting : p.stage.isActing = true := by
        rw [hstage]
        rfl
      rcases (hann.assert pid p hp).claimed hacting part rest key hrest hkey with
        hlock | ⟨hclosed, -⟩
      · constructor
        · simp [Dispatcher.close, Dispatcher.emit, hlock]
        · intro hfinal
          exact (hann.inv.locked key pid hlock).2 ((finalized_cons rfl).mp hfinal)
      · rw [hopen] at hclosed
        cases hclosed

theorem retried_of_select (hσ : DispatcherReachable σ) {p : Delivery} {part : Part}
    {rest : List Part} {key : DeliveryKey} (hp : σ.procs pid = some p)
    (hrest : p.rest = part :: rest) (hkey : part.key = some key)
    (hopen : σ.shared.isOpen pid = true) (hkeys : σ.shared.keys key ≠ some (some .done))
    (h : dispatcher.step σ (.exec pid .selectOutcome) = some τ) :
    τ.shared.log = .attempted pid p.notice (some key) :: σ.shared.log ∧
      τ.procs pid = some { p with stage := .acting false } := by
  obtain ⟨p', q, hp', heffect, hprocs⟩ := step_effect h
  cases hp.symm.trans hp'
  rw [hprocs, Function.update_self]
  have hok := hσ.annotated.assert pid p hp
  generalize τ.shared = w' at heffect ⊢
  cases heffect with
  | lost _ _ hclosed =>
      rw [hopen] at hclosed
      cases hclosed
  | attemptNew hrest' hkey' =>
      cases hrest.symm.trans hrest'
      cases hkey.symm.trans hkey'
      exact ⟨rfl, rfl⟩
  | attemptOld hrest' hkey' =>
      cases hrest.symm.trans hrest'
      cases hkey.symm.trans hkey'
      exact ⟨rfl, rfl⟩
  | @skip _ _ _ outcome hrest' hkey' hdone =>
      cases hrest.symm.trans hrest'
      cases hkey.symm.trans hkey'
      cases outcome
      exact (hkeys hdone).elim
  | vanished hstage hrest' hkey' hlock hnone =>
      cases hrest.symm.trans hrest'
      cases hkey.symm.trans hkey'
      rcases hok.inserted hstage hopen part rest key hrest hkey with hlock' | hsome
      · exact (hlock hlock').elim
      · exact (hsome hnone).elim

theorem ordered_of_lawful {earlier : List Event} {sessionId : Option SessionId}
    {threadId : Option ThreadId} {ikey message : String} {thenArchive : Bool}
    (hmessage : message ≠ "")
    (h : Lawful earlier (.attempted pid (.terminal sessionId threadId ikey message thenArchive)
      (archivePart sessionId threadId ikey).key)) :
    Finalized earlier ⟨.terminalNoticePost, ikey ++ "#post"⟩ := by
  obtain ⟨-, passed, part, rest, hparts, hkey, hpassed⟩ := h
  simp only [Notice.parts, if_neg hmessage, List.singleton_append] at hparts
  cases passed with
  | nil =>
      -- The first part is the post stage.
      obtain ⟨rfl, -⟩ := List.cons.inj hparts
      cases hkey
  | cons first passed =>
      obtain ⟨rfl, -⟩ := List.cons.inj hparts
      exact hpassed _ List.mem_cons_self _ rfl

/-! ## The guarantees -/

theorem claim_act_finalize (h : DispatcherReachable σ) : Guarantees σ := by
  have hann := h.annotated
  have hlawful := hann.inv.lawful
  constructor
  · intro later pid notice key earlier hlog
    exact (hlawful.split hlog).1
  · intro later pid key earlier hlog
    exact hlawful.split hlog
  · exact hann.inv.done
  · intro later pid key archives earlier hlog
    exact (hlawful.split hlog).1
  · exact hann.inv.archived
  · intro pid a τ hs hne
    exact written_of_step hs hne
  · intro pid p part rest key τ hp hrest hkey hs
    obtain ⟨hkeys, hopened⟩ := failed_of_raise h hp hrest hkey hs
    refine ⟨hkeys, fun hopen ↦ ?_⟩
    obtain ⟨hfree, hnot⟩ := hopened hopen
    have hτ : DispatcherReachable τ := h.step trivial hs
    refine ⟨fun hdone ↦ hnot ((hτ.annotated.inv.done key).mp hdone), fun ρ hreach hdone ↦ ?_⟩
    have hρ : DispatcherReachable ρ := hτ.reaches hreach
    exact repeated_of_done hτ hnot hfree hreach ((hρ.annotated.inv.done key).mp hdone)
  · intro pid p part rest key τ hp hrest hkey hopen hkeys hs
    exact retried_of_select h hp hrest hkey hopen hkeys hs
  · intro later pid notice earlier hlog
    exact hlawful.split hlog
  · intro later pid sessionId threadId ikey message thenArchive earlier hmessage hlog
    exact ordered_of_lawful hmessage (hlawful.split hlog)

/-- A notice that is posted and then archives the thread of session 1. -/
def closing : Notice := .terminal (some 1) (some 7) "k" "done" true

def closingRun : List (ProcessPool.Action EnvAction Notice DeliveryAction) :=
  [.env (.writeStatus 1 .archived), .spawn closing,
    .exec 0 .insertKey, .exec 0 .selectOutcome, .exec 0 .perform, .exec 0 .effectReturns,
    .exec 0 .commit,
    .exec 0 .insertKey, .exec 0 .selectOutcome, .exec 0 .perform, .exec 0 .effectReturns,
    .exec 0 .commit, .exec 0 .finish]

def closed : DispatcherState := (dispatcher.run (.start .init) closingRun).get (by decide +kernel)

theorem claim_act_finalize_closed :
    closed.shared.keys ⟨.terminalNoticeArchive, "k#archive"⟩ = some (some .done) ∧
      Guarantees closed := by
  have hrun : dispatcher.run (.start .init) closingRun = some closed := (Option.some_get _).symm
  exact ⟨by decide +kernel, claim_act_finalize (Machine.reachable_of_run rfl hrun)⟩

/-! ## Below exactly-once -/

/-- The server ends the transaction of delivery 0 under the call; delivery 1 is complete when
the call takes place. -/
def interruptedRun : List (ProcessPool.Action EnvAction Notice DeliveryAction) :=
  let notice : Notice := .system none (some 7) "k" none "hello"
  [.spawn notice, .exec 0 .insertKey, .exec 0 .selectOutcome, .env (.rollback 0),
    .spawn notice, .exec 1 .insertKey, .exec 1 .selectOutcome, .exec 1 .perform,
    .exec 1 .effectReturns, .exec 1 .commit, .exec 0 .perform]

/-- The archive fails, the session goes live again, and the next delivery passes it over. -/
def passedOverRun : List (ProcessPool.Action EnvAction Notice DeliveryAction) :=
  let notice : Notice := .archiveThread (some 1) (some 7) "k"
  [.env (.writeStatus 1 .archived), .spawn notice, .exec 0 .readStatus, .exec 0 .insertKey,
    .exec 0 .selectOutcome, .exec 0 .effectRaises, .env (.writeStatus 1 .running),
    .spawn notice, .exec 1 .readStatus]

/-- The side effect of a done key may still take place, and one that failed may be left out. -/
theorem delivery_not_exactly_once :
    (¬ ∀ σ, DispatcherReachable σ → ∀ later pid key earlier,
      σ.shared.log = later ++ .performed pid (some key) :: earlier → ¬ Finalized earlier key) ∧
    ¬ ∀ σ, DispatcherReachable σ → ∀ later pid notice between pid' key earlier,
      σ.shared.log =
        later ++ .passedOver pid notice :: (between ++ .raised pid' (some key) :: earlier) →
      (∃ part ∈ notice.parts, part.key = some key) → ∃ q, .performed q (some key) ∈ between := by
  constructor
  · intro h
    obtain ⟨σ, hrun⟩ : ∃ σ, dispatcher.run (.start .init) interruptedRun = some σ :=
      Option.isSome_iff_exists.mp (by decide +kernel)
    have hlog : (dispatcher.run (.start .init) interruptedRun).map (·.shared.log) =
        some [.performed 0 (some ⟨.systemNotice, "k"⟩),
          .finalized 1 ⟨.systemNotice, "k"⟩ none, .returned 1 (some ⟨.systemNotice, "k"⟩),
          .performed 1 (some ⟨.systemNotice, "k"⟩),
          .attempted 1 (.system none (some 7) "k" none "hello") (some ⟨.systemNotice, "k"⟩),
          .rolledBack 0,
          .attempted 0 (.system none (some 7) "k" none "hello") (some ⟨.systemNotice, "k"⟩)] := by
      decide +kernel
    rw [hrun] at hlog
    refine h σ (Machine.reachable_of_run rfl hrun) [] 0 _ _ (Option.some.inj hlog) ?_
    exact ⟨1, none, List.mem_cons_self⟩
  · intro h
    obtain ⟨σ, hrun⟩ : ∃ σ, dispatcher.run (.start .init) passedOverRun = some σ :=
      Option.isSome_iff_exists.mp (by decide +kernel)
    have hlog : (dispatcher.run (.start .init) passedOverRun).map (·.shared.log) =
        some [.passedOver 1 (.archiveThread (some 1) (some 7) "k"),
          .raised 0 (some ⟨.archiveThread, "k"⟩),
          .attempted 0 (.archiveThread (some 1) (some 7) "k") (some ⟨.archiveThread, "k"⟩)] := by
      decide +kernel
    rw [hrun] at hlog
    obtain ⟨q, hmem⟩ := h σ (Machine.reachable_of_run rfl hrun) [] 1
      (.archiveThread (some 1) (some 7) "k") [] 0 ⟨.archiveThread, "k"⟩ _ (Option.some.inj hlog)
      ⟨_, List.mem_singleton_self _, rfl⟩
    cases hmem

end Discode.NoticeDelivery
