import Discode.NoticeDelivery

/-!
# The proof of claim, act and finalize

The key row is locked from the claim to the commit, so whoever acts under an open transaction
is alone and nobody finalized before.  The proof keeps that for every delivery against the
steps of all others.
-/

set_option autoImplicit false

namespace Discode.NoticeDelivery

open ProcessPool (Machine)

/-- A transaction with outcome `done` for the key was committed. -/
def Finalized (log : List Event) (key : DeliveryKey) : Prop :=
  ∃ pid archives, .finalized pid key archives ∈ log

/-- All parts with a key are finalized. -/
def AllFinalized (log : List Event) (parts : List Part) : Prop :=
  ∀ part ∈ parts, ∀ key, part.key = some key → Finalized log key

/-- The transaction of the delivery ended under its side effect. -/
def Interrupted (log : List Event) (pid : ℕ) (key : DeliveryKey) : Prop :=
  ∃ later earlier notice, log = later ++ .rolledBack pid :: earlier ∧
    .attempted pid notice (some key) ∈ earlier

/-- What holds of an event, given the earlier ones. -/
def Lawful (earlier : List Event) : Event → Prop
  | .attempted _ notice (some key) => ¬ Finalized earlier key ∧
      ∃ passed part rest, notice.parts = passed ++ part :: rest ∧ part.key = some key ∧
        AllFinalized earlier passed
  | .performed pid (some key) => Interrupted earlier pid key ∨ ¬ Finalized earlier key
  | .raised pid (some key) => Interrupted earlier pid key ∨ ¬ Finalized earlier key
  | .returned pid key => .performed pid key ∈ earlier
  | .finalized pid key _ => .returned pid (some key) ∈ earlier ∧ ¬ Finalized earlier key
  | .handled _ notice => AllFinalized earlier notice.parts
  | _ => True

/-! ## What one step of a delivery does -/

inductive StepEffect (pid : ℕ) (w : Dispatcher) (p : Delivery) :
    DeliveryAction → Dispatcher → Option Delivery → Prop where
  | passOver : StepEffect pid w p .readStatus (w.emit (.passedOver pid p.notice)) none
  | proceed (hstage : p.stage = .guard) :
      StepEffect pid w p .readStatus w (some { p with stage := .next })
  | attemptBare {part : Part} {rest : List Part} (hrest : p.rest = part :: rest)
      (hkey : part.key = none) : StepEffect pid w p .insertKey
        (w.emit (.attempted pid p.notice none)) (some { p with stage := .acting false })
  | refuse : StepEffect pid w p .insertKey w none
  | lost (a : DeliveryAction) (ha : a = .selectOutcome ∨ a = .commit)
      (hclosed : w.isOpen pid = false) : StepEffect pid w p a w none
  | insertOld {part : Part} {rest : List Part} {key : DeliveryKey}
      (hrest : p.rest = part :: rest) (hkey : part.key = some key) (hkeys : w.keys key ≠ none) :
      StepEffect pid w p .insertKey (w.begin pid) (some { p with stage := .inserted })
  | insertNew {part : Part} {rest : List Part} {key : DeliveryKey}
      (hrest : p.rest = part :: rest) (hkey : part.key = some key) (hkeys : w.keys key = none)
      (hfree : w.locks key = none) : StepEffect pid w p .insertKey
        (((w.begin pid).lock key pid).share part.session pid)
        (some { p with stage := .inserted })
  | attemptNew {part : Part} {rest : List Part} {key : DeliveryKey}
      (hrest : p.rest = part :: rest) (hkey : part.key = some key)
      (hlock : w.locks key = some pid) : StepEffect pid w p .selectOutcome
        (w.emit (.attempted pid p.notice (some key))) (some { p with stage := .acting false })
  | attemptOld {part : Part} {rest : List Part} {key : DeliveryKey}
      (hrest : p.rest = part :: rest) (hkey : part.key = some key) (hopen : w.isOpen pid = true)
      (hkeys : w.keys key = some none) (hfree : w.locks key = none) :
      StepEffect pid w p .selectOutcome
        ((w.lock key pid).emit (.attempted pid p.notice (some key)))
        (some { p with stage := .acting false })
  | skip {part : Part} {rest : List Part} {key : DeliveryKey} {outcome : Outcome}
      (hrest : p.rest = part :: rest) (hkey : part.key = some key)
      (hkeys : w.keys key = some (some outcome)) :
      StepEffect pid w p .selectOutcome (w.close pid)
        (some { p with rest := rest, stage := .next })
  | vanished {part : Part} {rest : List Part} {key : DeliveryKey} (hstage : p.stage = .inserted)
      (hrest : p.rest = part :: rest) (hkey : part.key = some key)
      (hlock : w.locks key ≠ some pid) (hkeys : w.keys key = none) :
      StepEffect pid w p .selectOutcome (w.close pid) none
  | abort : StepEffect pid w p .fail (w.close pid) none
  | perform {part : Part} {rest : List Part} {performed : Bool} (hrest : p.rest = part :: rest)
      (hstage : p.stage = .acting performed) : StepEffect pid w p .perform
        (w.emit (.performed pid part.key)) (some { p with stage := .acting true })
  | returnBare {part : Part} {rest : List Part} (hrest : p.rest = part :: rest)
      (hstage : p.stage = .acting true) (hkey : part.key = none) :
      StepEffect pid w p .effectReturns (w.emit (.returned pid none))
        (some { p with rest := rest, stage := .next })
  | returnKeyed {part : Part} {rest : List Part} {key : DeliveryKey}
      (hrest : p.rest = part :: rest) (hstage : p.stage = .acting true)
      (hkey : part.key = some key) : StepEffect pid w p .effectReturns
        (w.emit (.returned pid (some key))) (some { p with stage := .acted })
  | raise {part : Part} {rest : List Part} {performed : Bool} (hrest : p.rest = part :: rest)
      (hstage : p.stage = .acting performed) : StepEffect pid w p .effectRaises
        ((w.emit (.raised pid part.key)).close pid) none
  | finalize {part : Part} {rest : List Part} {key : DeliveryKey} (hrest : p.rest = part :: rest)
      (hstage : p.stage = .acted) (hkey : part.key = some key) (hopen : w.isOpen pid = true) :
      StepEffect pid w p .commit
        (((w.commit key part.archives).close pid).emit (.finalized pid key part.archives))
        (some { p with rest := rest, stage := .next })
  | finish (hrest : p.rest = []) :
      StepEffect pid w p .finish (w.emit (.handled pid p.notice)) none

theorem Delivery.step_effect {pid : ℕ} {w w' : Dispatcher} {p : Delivery} {q : Option Delivery}
    {a : DeliveryAction} (h : p.step pid w a = some (w', q)) : StepEffect pid w p a w' q := by
  unfold Delivery.step at h
  split at h
  · rename_i hstage
    split at h
    · split at h <;> cases h
      · exact .passOver
      · exact .proceed hstage
    · cases h
  · rename_i part rest hstage hrest
    unfold Delivery.insertKey at h
    split at h
    · rename_i hkey
      cases h
      exact .attemptBare hrest hkey
    · rename_i key hkey
      split at h
      · cases h
        exact .refuse
      · split at h
        · rename_i hkeys
          cases h
          refine .insertOld hrest hkey ?_
          rw [hkeys]
          exact Option.some_ne_none _
        · rename_i hkeys hfree
          split at h <;> cases h
          · exact .insertNew hrest hkey hkeys hfree
          · exact .refuse
        · cases h
  · rename_i part rest hstage hrest
    obtain ⟨key, hkey, h⟩ := Option.bind_eq_some_iff.mp h
    unfold Delivery.selectOutcome at h
    split at h
    · rename_i hclosed
      cases h
      rw [Bool.not_eq_true'] at hclosed
      exact .lost _ (.inl rfl) hclosed
    · rename_i hopen
      rw [Bool.not_eq_true, Bool.not_eq_false'] at hopen
      split at h
      · rename_i hlock
        cases h
        exact .attemptNew hrest hkey hlock
      · rename_i hlock
        split at h <;> cases h
        · rename_i hkeys _
          exact .skip hrest hkey hkeys
        · rename_i hkeys hfree
          exact .attemptOld hrest hkey hopen hkeys hfree
        · rename_i hkeys
          exact .vanished hstage hrest hkey hlock hkeys
  · rename_i performed part rest hstage hrest
    cases h
    exact .perform hrest hstage
  · rename_i part rest hstage hrest
    dsimp only at h
    split at h
    · rename_i hkey
      cases h
      rw [hkey]
      exact .returnBare hrest hstage hkey
    · rename_i key hkey
      cases h
      rw [hkey]
      exact .returnKeyed hrest hstage hkey
  · rename_i performed part rest hstage hrest
    cases h
    exact .raise hrest hstage
  · rename_i part rest hstage hrest
    obtain ⟨key, hkey, h⟩ := Option.map_eq_some_iff.mp h
    unfold Delivery.commit at h
    split at h <;> cases h
    · rename_i hopen
      exact .finalize hrest hstage hkey hopen
    · rename_i hclosed
      rw [Bool.not_eq_true] at hclosed
      exact .lost _ (.inr rfl) hclosed
  · rename_i hstage hrest
    cases h
    exact .finish hrest
  · cases h
    exact .abort
  · cases h

/-! ## The invariant -/

structure Inv (w : Dispatcher) : Prop where
  done : ∀ key, w.keys key = some (some .done) ↔ Finalized w.log key
  locked : ∀ key pid, w.locks key = some pid → w.isOpen pid = true ∧ ¬ Finalized w.log key
  archived : ∀ sid row, w.sessions sid = some row → row.discordThreadArchivedAt.isSome = true →
    ∃ pid key, .finalized pid key (some sid) ∈ w.log
  lawful : EveryEvent Lawful w.log

theorem Finalized.mono {log log' : List Event} {key : DeliveryKey} (h : Finalized log key)
    (hlog : ∀ e ∈ log, e ∈ log') : Finalized log' key := by
  obtain ⟨pid, archives, hmem⟩ := h
  exact ⟨pid, archives, hlog _ hmem⟩

theorem Interrupted.mono {log log' : List Event} {pid : ℕ} {key : DeliveryKey}
    (h : Interrupted log pid key) (hlog : log <:+ log') : Interrupted log' pid key := by
  obtain ⟨later, earlier, notice, rfl, hmem⟩ := h
  obtain ⟨newer, rfl⟩ := hlog
  exact ⟨newer ++ later, earlier, notice, (List.append_assoc _ _ _).symm, hmem⟩

theorem AllFinalized.mono {log log' : List Event} {parts : List Part} (h : AllFinalized log parts)
    (hlog : ∀ e ∈ log, e ∈ log') : AllFinalized log' parts :=
  fun part hpart key hkey ↦ (h part hpart key hkey).mono hlog

/-- The event is not the commit of an outcome. -/
def Event.isFinal : Event → Bool
  | finalized .. => true
  | _ => false

theorem finalized_cons {log : List Event} {e : Event} {key : DeliveryKey}
    (he : e.isFinal = false) : Finalized (e :: log) key ↔ Finalized log key := by
  constructor
  · rintro ⟨pid, archives, hmem⟩
    rcases List.mem_cons.mp hmem with rfl | hmem
    · cases he
    · exact ⟨pid, archives, hmem⟩
  · exact fun h ↦ h.mono fun e' he' ↦ List.mem_cons_of_mem _ he'

namespace Inv

variable {w : Dispatcher}

theorem emit (h : Inv w) {e : Event} (he : e.isFinal = false) (hlaw : Lawful w.log e) :
    Inv (w.emit e) := by
  constructor
  · intro key
    exact (h.done key).trans (finalized_cons he).symm
  · intro key pid hlock
    obtain ⟨hopen, hnot⟩ := h.locked key pid hlock
    exact ⟨hopen, fun hfinal ↦ hnot ((finalized_cons he).mp hfinal)⟩
  · intro sid row hrow hsome
    obtain ⟨pid, key, hmem⟩ := h.archived sid row hrow hsome
    exact ⟨pid, key, List.mem_cons_of_mem _ hmem⟩
  · exact ⟨hlaw, h.lawful⟩

theorem begin (h : Inv w) (pid : ℕ) : Inv (w.begin pid) := by
  refine ⟨h.done, ?_, h.archived, h.lawful⟩
  intro key other hlock
  obtain ⟨hopen, hnot⟩ := h.locked key other hlock
  refine ⟨?_, hnot⟩
  simp only [Dispatcher.begin, Function.update_apply]
  split
  · rfl
  · exact hopen

theorem share (h : Inv w) (sessionId : Option SessionId) (pid : ℕ) :
    Inv (w.share sessionId pid) :=
  ⟨h.done, h.locked, h.archived, h.lawful⟩

theorem close (h : Inv w) (pid : ℕ) : Inv (w.close pid) := by
  refine ⟨h.done, ?_, h.archived, h.lawful⟩
  intro key other hlock
  simp only [Dispatcher.close] at hlock
  split at hlock
  · cases hlock
  · rename_i hother
    obtain ⟨hopen, hnot⟩ := h.locked key other hlock
    have hne : other ≠ pid := fun heq ↦ hother (heq ▸ hlock)
    exact ⟨(Function.update_of_ne hne _ _).trans hopen, hnot⟩

theorem lock (h : Inv w) {key : DeliveryKey} {pid : ℕ} (hopen : w.isOpen pid = true)
    (hnot : ¬ Finalized w.log key) : Inv (w.lock key pid) := by
  refine ⟨h.done, ?_, h.archived, h.lawful⟩
  intro key' other hlock
  simp only [Dispatcher.lock, Function.update_apply] at hlock
  split at hlock
  · rename_i hkey
    cases hlock
    subst hkey
    exact ⟨hopen, hnot⟩
  · exact h.locked key' other hlock

/-- The commit of the outcome, by the holder of the lock. -/
theorem finalize (h : Inv w) {key : DeliveryKey} {pid : ℕ} (hlock : w.locks key = some pid)
    (hreturned : .returned pid (some key) ∈ w.log) (archives : Option SessionId) :
    Inv (((w.commit key archives).close pid).emit (.finalized pid key archives)) := by
  have hnot := (h.locked key pid hlock).2
  have hfinal : ∀ key', Finalized (.finalized pid key archives :: w.log) key' ↔
      key' = key ∨ Finalized w.log key' := by
    intro key'
    constructor
    · rintro ⟨pid', archives', hmem⟩
      rcases List.mem_cons.mp hmem with heq | hmem
      · cases heq
        exact .inl rfl
      · exact .inr ⟨pid', archives', hmem⟩
    · rintro (rfl | h)
      · exact ⟨pid, archives, List.mem_cons_self⟩
      · exact h.mono fun e he ↦ List.mem_cons_of_mem _ he
  constructor
  · intro key'
    refine Iff.trans ?_ (hfinal key').symm
    simp only [Dispatcher.emit, Dispatcher.close, Dispatcher.commit, Function.update_apply]
    split
    · rename_i hkey
      simp [hkey]
    · rename_i hkey
      simp [hkey, h.done key']
  · intro key' other hlock'
    have hclosed : (w.close pid).locks key' = some other := hlock'
    obtain ⟨hopen', hnot'⟩ := (h.close pid).locked key' other hclosed
    refine ⟨hopen', fun hf ↦ ?_⟩
    rcases (hfinal key').mp hf with rfl | hf
    · simp [Dispatcher.close, hlock] at hclosed
    · exact hnot' hf
  · intro sid row hrow hsome
    simp only [Dispatcher.emit, Dispatcher.close, Dispatcher.commit] at hrow
    split at hrow
    · rename_i hsid
      exact ⟨pid, key, hsid ▸ List.mem_cons_self⟩
    · obtain ⟨pid', key', hmem⟩ := h.archived sid row hrow hsome
      exact ⟨pid', key', List.mem_cons_of_mem _ hmem⟩
  · exact ⟨⟨hreturned, hnot⟩, h.lawful⟩

end Inv

/-! ## The assertion of a delivery -/

def Stage.isActing : Stage → Bool
  | acting _ | acted => true
  | _ => false

structure Delivery.Ok (pid : ℕ) (p : Delivery) (w : Dispatcher) : Prop where
  passed : ∃ passed, p.notice.parts = passed ++ p.rest ∧ AllFinalized w.log passed
  inserted : p.stage = .inserted → w.isOpen pid = true → ∀ part rest key, p.rest = part :: rest →
    part.key = some key → w.locks key = some pid ∨ w.keys key ≠ none
  attempted : p.stage.isActing = true → ∀ part rest, p.rest = part :: rest →
    .attempted pid p.notice part.key ∈ w.log
  claimed : p.stage.isActing = true → ∀ part rest key, p.rest = part :: rest →
    part.key = some key →
    w.locks key = some pid ∨ w.isOpen pid = false ∧ Interrupted w.log pid key
  performed : p.stage = .acting true → ∀ part rest, p.rest = part :: rest →
    .performed pid part.key ∈ w.log
  returned : p.stage = .acted → ∀ part rest, p.rest = part :: rest →
    .returned pid part.key ∈ w.log

/-- A step that takes nothing from delivery `pid` and gives it nothing. -/
structure Spares (pid : ℕ) (w w' : Dispatcher) : Prop where
  locks : ∀ key, w'.locks key = some pid ↔ w.locks key = some pid
  isOpen : w'.isOpen pid = w.isOpen pid
  keys : ∀ key, w.keys key ≠ none → w'.keys key ≠ none
  log : w.log <:+ w'.log

namespace Spares

variable {pid other : ℕ} {w w' : Dispatcher}

theorem refl (w : Dispatcher) : Spares pid w w :=
  ⟨fun _ ↦ Iff.rfl, rfl, fun _ h ↦ h, List.suffix_refl _⟩

theorem emit (h : Spares pid w w') (e : Event) : Spares pid w (w'.emit e) :=
  ⟨h.locks, h.isOpen, h.keys, h.log.trans (List.suffix_cons e _)⟩

theorem begin (h : Spares pid w w') (hne : pid ≠ other) : Spares pid w (w'.begin other) :=
  ⟨h.locks, (Function.update_of_ne hne _ _).trans h.isOpen, h.keys, h.log⟩

theorem share (h : Spares pid w w') (sessionId : Option SessionId) (other : ℕ) :
    Spares pid w (w'.share sessionId other) :=
  ⟨h.locks, h.isOpen, h.keys, h.log⟩

theorem close (h : Spares pid w w') (hne : pid ≠ other) : Spares pid w (w'.close other) := by
  refine ⟨fun key ↦ Iff.trans ?_ (h.locks key), (Function.update_of_ne hne _ _).trans h.isOpen,
    h.keys, h.log⟩
  simp only [Dispatcher.close]
  split
  · rename_i hother
    rw [hother]
    constructor
    · intro hnone
      cases hnone
    · intro heq
      exact (hne (Option.some.inj heq).symm).elim
  · exact Iff.rfl

theorem lock (h : Spares pid w w') (hne : pid ≠ other) {key : DeliveryKey}
    (hfree : w'.locks key = none) : Spares pid w (w'.lock key other) := by
  refine ⟨fun key' ↦ Iff.trans ?_ (h.locks key'), h.isOpen, h.keys, h.log⟩
  simp only [Dispatcher.lock, Function.update_apply]
  split
  · rename_i hkey
    subst hkey
    rw [hfree]
    constructor
    · intro heq
      exact (hne (Option.some.inj heq).symm).elim
    · intro hnone
      cases hnone
  · exact Iff.rfl

theorem commit (h : Spares pid w w') (key : DeliveryKey) (archives : Option SessionId) :
    Spares pid w (w'.commit key archives) := by
  refine ⟨h.locks, h.isOpen, fun key' hkeys ↦ ?_, h.log⟩
  simp only [Dispatcher.commit, Function.update_apply]
  split
  · exact Option.some_ne_none _
  · exact h.keys key' hkeys

end Spares

theorem Delivery.Ok.spares {pid : ℕ} {p : Delivery} {w w' : Dispatcher} (h : p.Ok pid w)
    (hs : Spares pid w w') : p.Ok pid w' := by
  constructor
  · obtain ⟨passed, hparts, hfinal⟩ := h.passed
    exact ⟨passed, hparts, hfinal.mono fun _ he ↦ hs.log.subset he⟩
  · intro hstage hopen part rest key hrest hkey
    rcases h.inserted hstage (hs.isOpen ▸ hopen) part rest key hrest hkey with hlock | hkeys
    · exact .inl ((hs.locks key).mpr hlock)
    · exact .inr (hs.keys key hkeys)
  · exact fun hacting part rest hrest ↦ hs.log.subset (h.attempted hacting part rest hrest)
  · intro hacting part rest key hrest hkey
    rcases h.claimed hacting part rest key hrest hkey with hlock | ⟨hclosed, hint⟩
    · exact .inl ((hs.locks key).mpr hlock)
    · exact .inr ⟨hs.isOpen.trans hclosed, hint.mono hs.log⟩
  · exact fun hstage part rest hrest ↦ hs.log.subset (h.performed hstage part rest hrest)
  · exact fun hstage part rest hrest ↦ hs.log.subset (h.returned hstage part rest hrest)

/-- The server ends the transaction of the delivery itself. -/
theorem Delivery.Ok.rollback {pid : ℕ} {p : Delivery} {w : Dispatcher} (h : p.Ok pid w) :
    p.Ok pid ((w.close pid).emit (.rolledBack pid)) := by
  have hlog : ∀ e ∈ w.log, e ∈ ((w.close pid).emit (.rolledBack pid)).log :=
    fun e he ↦ List.mem_cons_of_mem _ he
  constructor
  · obtain ⟨passed, hparts, hfinal⟩ := h.passed
    exact ⟨passed, hparts, hfinal.mono hlog⟩
  · intro _ hopen
    have hclosed : (w.close pid).isOpen pid = true := hopen
    simp [Dispatcher.close] at hclosed
  · exact fun hacting part rest hrest ↦ hlog _ (h.attempted hacting part rest hrest)
  · intro hacting part rest key hrest hkey
    have hattempt := h.attempted hacting part rest hrest
    rw [hkey] at hattempt
    exact .inr ⟨Function.update_self _ _ _, [], w.log, p.notice, rfl, hattempt⟩
  · exact fun hstage part rest hrest ↦ hlog _ (h.performed hstage part rest hrest)
  · exact fun hstage part rest hrest ↦ hlog _ (h.returned hstage part rest hrest)

/-! ## One step -/

namespace Delivery.Ok

variable {pid : ℕ} {p : Delivery} {w w' : Dispatcher} {part : Part} {rest : List Part}
  {key : DeliveryKey}

theorem of_passed (h : ∃ passed, p.notice.parts = passed ++ p.rest ∧ AllFinalized w.log passed)
    (hinserted : p.stage ≠ .inserted) (hstage : p.stage.isActing = false) : p.Ok pid w := by
  refine ⟨h, fun hstage' ↦ (hinserted hstage').elim, ?_, ?_, ?_, ?_⟩
  · intro hacting
    rw [hstage] at hacting
    cases hacting
  · intro hacting
    rw [hstage] at hacting
    cases hacting
  · intro hacting
    rw [hacting] at hstage
    cases hstage
  · intro hacted
    rw [hacted] at hstage
    cases hstage

/-- The part at hand is claimed and its key is known, or about to be. -/
theorem of_inserted (h : ∃ passed, p.notice.parts = passed ++ p.rest ∧ AllFinalized w.log passed)
    (hstage : p.stage = .inserted) (hrest : p.rest = part :: rest) (hkey : part.key = some key)
    (hclaim : w.locks key = some pid ∨ w.keys key ≠ none) : p.Ok pid w := by
  constructor
  · exact h
  · intro _ _ part' rest' key' hrest' hkey'
    cases hrest.symm.trans hrest'
    cases hkey.symm.trans hkey'
    exact hclaim
  · intro hacting
    rw [hstage] at hacting
    cases hacting
  · intro hacting
    rw [hstage] at hacting
    cases hacting
  · intro hacting
    cases hstage.symm.trans hacting
  · intro hacted
    cases hstage.symm.trans hacted

/-- The side effect of the part at hand is about to be performed. -/
theorem of_attempt (h : ∃ passed, p.notice.parts = passed ++ p.rest ∧ AllFinalized w.log passed)
    (hstage : p.stage = .acting false) (hrest : p.rest = part :: rest)
    (hmem : .attempted pid p.notice part.key ∈ w.log)
    (hclaim : ∀ key, part.key = some key → w.locks key = some pid) : p.Ok pid w := by
  constructor
  · exact h
  · intro hinserted
    cases hstage.symm.trans hinserted
  · intro _ part' rest' hrest'
    cases hrest.symm.trans hrest'
    exact hmem
  · intro _ part' rest' key' hrest' hkey'
    cases hrest.symm.trans hrest'
    exact .inl (hclaim key' hkey')
  · intro hacting
    cases hstage.symm.trans hacting
  · intro hacted
    cases hstage.symm.trans hacted

/-- The side effect of the part at hand moves on. -/
theorem advance (h : p.Ok pid w) {e : Event} {stage : Stage} (hacting : p.stage.isActing = true)
    (hstage : stage.isActing = true) (hrest : p.rest = part :: rest)
    (hperformed : .performed pid part.key ∈ (w.emit e).log)
    (hreturned : stage = .acted → .returned pid part.key ∈ (w.emit e).log) :
    ({ p with stage := stage } : Delivery).Ok pid (w.emit e) := by
  have hlog : w.log <:+ (w.emit e).log := List.suffix_cons e _
  constructor
  · obtain ⟨passed, hparts, hfinal⟩ := h.passed
    exact ⟨passed, hparts, hfinal.mono fun _ he ↦ hlog.subset he⟩
  · rintro rfl
    cases hstage
  · exact fun _ part rest hrest ↦ hlog.subset (h.attempted hacting part rest hrest)
  · intro _ part rest key hrest hkey
    rcases h.claimed hacting part rest key hrest hkey with hlock | ⟨hclosed, hint⟩
    · exact .inl hlock
    · exact .inr ⟨hclosed, hint.mono hlog⟩
  · intro _ part' rest' hrest'
    cases hrest.symm.trans hrest'
    exact hperformed
  · intro hacted part' rest' hrest'
    cases hrest.symm.trans hrest'
    exact hreturned hacted

theorem passed_mono (h : p.Ok pid w) (hlog : ∀ e ∈ w.log, e ∈ w'.log) :
    ∃ passed, p.notice.parts = passed ++ p.rest ∧ AllFinalized w'.log passed := by
  obtain ⟨passed, hparts, hfinal⟩ := h.passed
  exact ⟨passed, hparts, hfinal.mono hlog⟩

/-- The part at hand joins the ones that are done. -/
theorem passed_part (h : p.Ok pid w) (hrest : p.rest = part :: rest)
    (hlog : ∀ e ∈ w.log, e ∈ w'.log) (hpart : ∀ key, part.key = some key → Finalized w'.log key) :
    ∃ passed, p.notice.parts = passed ++ rest ∧ AllFinalized w'.log passed := by
  obtain ⟨passed, hparts, hfinal⟩ := h.passed
  refine ⟨passed ++ [part], ?_, ?_⟩
  · rw [hparts, hrest, List.append_assoc]
    rfl
  · intro part' hmem key hkey
    rcases List.mem_append.mp hmem with hmem | hmem
    · exact (hfinal part' hmem key hkey).mono hlog
    · cases List.mem_singleton.mp hmem
      exact hpart key hkey

/-- Under an open transaction nobody finalized the key. -/
theorem not_finalized (h : p.Ok pid w) (hinv : Inv w) (hstage : p.stage.isActing = true)
    (hrest : p.rest = part :: rest) (hkey : part.key = some key) :
    Interrupted w.log pid key ∨ ¬ Finalized w.log key := by
  rcases h.claimed hstage part rest key hrest hkey with hlock | ⟨-, hint⟩
  · exact .inr (hinv.locked key pid hlock).2
  · exact .inl hint

/-- A part that is attempted comes after finalized ones. -/
theorem lawful_attempt (h : p.Ok pid w) (hrest : p.rest = part :: rest) (hkey : part.key = some key)
    (hnot : ¬ Finalized w.log key) : Lawful w.log (.attempted pid p.notice (some key)) := by
  obtain ⟨passed, hparts, hfinal⟩ := h.passed
  exact ⟨hnot, passed, part, rest, hparts.trans (hrest ▸ rfl), hkey, hfinal⟩

end Delivery.Ok

namespace StepEffect

variable {pid : ℕ} {w w' : Dispatcher} {p : Delivery} {a : DeliveryAction} {q : Option Delivery}

theorem inv (h : StepEffect pid w p a w' q) (hinv : Inv w) (hok : p.Ok pid w) : Inv w' := by
  have hfresh : ∀ {key}, w.keys key ≠ some (some .done) → ¬ Finalized w.log key :=
    fun hne hfinal ↦ hne ((hinv.done _).mpr hfinal)
  cases h with
  | passOver => exact hinv.emit rfl trivial
  | proceed => exact hinv
  | attemptBare => exact hinv.emit rfl trivial
  | refuse | lost => exact hinv
  | insertOld => exact hinv.begin pid
  | insertNew _ _ hkeys hfree =>
      apply Inv.share
      apply (hinv.begin pid).lock
      · exact Function.update_self _ _ _
      · apply hfresh
        rw [hkeys]
        exact fun h ↦ nomatch h
  | attemptNew hrest hkey hlock =>
      have hnot := (hinv.locked _ pid hlock).2
      exact hinv.emit rfl (hok.lawful_attempt hrest hkey hnot)
  | @attemptOld part rest key hrest hkey hopen hkeys hfree =>
      have hnot : ¬ Finalized w.log key := by
        apply hfresh
        rw [hkeys]
        exact fun h ↦ nomatch h
      exact (hinv.lock hopen hnot).emit rfl (hok.lawful_attempt hrest hkey hnot)
  | skip => exact hinv.close pid
  | vanished | abort => exact hinv.close pid
  | @perform part rest performed hrest hstage =>
      apply hinv.emit rfl
      cases hkey : part.key with
      | none => trivial
      | some key => exact hok.not_finalized hinv (by rw [hstage]; rfl) hrest hkey
  | returnBare hrest hstage hkey =>
      have hperformed := hok.performed hstage _ _ hrest
      rw [hkey] at hperformed
      exact hinv.emit rfl hperformed
  | returnKeyed hrest hstage hkey =>
      have hperformed := hok.performed hstage _ _ hrest
      rw [hkey] at hperformed
      exact hinv.emit rfl hperformed
  | @raise part rest performed hrest hstage =>
      apply Inv.close
      apply hinv.emit rfl
      cases hkey : part.key with
      | none => trivial
      | some key => exact hok.not_finalized hinv (by rw [hstage]; rfl) hrest hkey
  | finalize hrest hstage hkey hopen =>
      have hreturned := hok.returned hstage _ _ hrest
      rw [hkey] at hreturned
      rcases hok.claimed (by rw [hstage]; rfl) _ _ _ hrest hkey with hlock | ⟨hclosed, -⟩
      · exact hinv.finalize hlock hreturned _
      · rw [hopen] at hclosed
        cases hclosed
  | finish hrest =>
      obtain ⟨passed, hparts, hfinal⟩ := hok.passed
      rw [hrest, List.append_nil] at hparts
      have hall : AllFinalized w.log p.notice.parts := by
        rw [hparts]
        exact hfinal
      exact hinv.emit rfl hall

theorem ok (h : StepEffect pid w p a w' q) (hinv : Inv w) (hok : p.Ok pid w) :
    ∀ r, q = some r → r.Ok pid w' := by
  have hcons : ∀ {log : List Event} {e : Event}, ∀ e' ∈ log, e' ∈ e :: log :=
    fun e' he' ↦ List.mem_cons_of_mem _ he'
  intro r hr
  cases h with
  | passOver | refuse | lost | vanished | abort | raise | finish => cases hr
  | proceed =>
      cases hr
      exact .of_passed hok.passed (nomatch ·) rfl
  | attemptBare hrest hkey =>
      cases hr
      refine .of_attempt (hok.passed_mono hcons) rfl hrest ?_ ?_
      · rw [hkey]
        exact List.mem_cons_self
      · intro key hkey'
        cases hkey.symm.trans hkey'
  | insertOld hrest hkey hkeys =>
      cases hr
      exact .of_inserted hok.passed rfl hrest hkey (.inr hkeys)
  | insertNew hrest hkey =>
      cases hr
      exact .of_inserted hok.passed rfl hrest hkey (.inl (Function.update_self _ _ _))
  | attemptNew hrest hkey hlock =>
      cases hr
      refine .of_attempt (hok.passed_mono hcons) rfl hrest ?_ ?_
      · rw [hkey]
        exact List.mem_cons_self
      · intro key hkey'
        cases hkey.symm.trans hkey'
        exact hlock
  | attemptOld hrest hkey =>
      cases hr
      refine .of_attempt (hok.passed_mono hcons) rfl hrest ?_ ?_
      · rw [hkey]
        exact List.mem_cons_self
      · intro key hkey'
        cases hkey.symm.trans hkey'
        exact Function.update_self _ _ _
  | @skip part rest key outcome hrest hkey hkeys =>
      cases hr
      cases outcome
      refine .of_passed (hok.passed_part hrest (fun _ he ↦ he) fun key' hkey' ↦ ?_) (nomatch ·) rfl
      cases hkey.symm.trans hkey'
      exact (hinv.done key).mp hkeys
  | perform hrest hstage =>
      cases hr
      apply hok.advance (by rw [hstage]; rfl) rfl hrest
      · exact List.mem_cons_self
      · intro hacted
        cases hacted
  | returnBare hrest hstage hkey =>
      cases hr
      refine .of_passed (hok.passed_part hrest hcons fun key' hkey' ↦ ?_) (nomatch ·) rfl
      rw [hkey] at hkey'
      cases hkey'
  | returnKeyed hrest hstage hkey =>
      cases hr
      apply hok.advance (by rw [hstage]; rfl) rfl hrest
      · exact hcons _ (hok.performed hstage _ _ hrest)
      · intro _
        rw [hkey]
        exact List.mem_cons_self
  | finalize hrest hstage hkey hopen =>
      cases hr
      refine .of_passed (hok.passed_part hrest hcons fun key' hkey' ↦ ?_) (nomatch ·) rfl
      cases hkey.symm.trans hkey'
      exact ⟨pid, _, List.mem_cons_self⟩

theorem spares (h : StepEffect pid w p a w' q) {other : ℕ} (hne : other ≠ pid) :
    Spares other w w' := by
  have hrefl : Spares other w w := .refl w
  cases h with
  | passOver | attemptBare | attemptNew | perform | returnBare | returnKeyed | finish =>
      exact hrefl.emit _
  | proceed | refuse | lost => exact hrefl
  | insertOld => exact hrefl.begin hne
  | insertNew _ _ _ hfree => exact ((hrefl.begin hne).lock hne hfree).share _ _
  | attemptOld _ _ _ _ hfree => exact (hrefl.lock hne hfree).emit _
  | skip | vanished | abort => exact hrefl.close hne
  | raise => exact (hrefl.emit _).close hne
  | @finalize part _ key =>
      have hcommit : Spares other w (w.commit key part.archives) :=
        (Spares.refl w).commit key part.archives
      exact (hcommit.close hne).emit _

end StepEffect

/-- The environment ends a transaction or writes columns that are no archive timestamp. -/
theorem envStep_effect {w w' : Dispatcher} {e : EnvAction} (h : envStep w e = some w') :
    (∃ pid, w' = (w.close pid).emit (.rolledBack pid)) ∨
    ∃ now sessions, w' = { w with now := now, sessions := sessions } ∧
      ∀ sid row, sessions sid = some row → row.discordThreadArchivedAt.isSome = true →
        ∃ old, w.sessions sid = some old ∧ old.discordThreadArchivedAt.isSome = true := by
  cases e with
  | tick ms =>
      cases h
      exact .inr ⟨_, _, rfl, fun sid row hrow hsome ↦ ⟨row, hrow, hsome⟩⟩
  | writeStatus sid status =>
      simp only [envStep] at h
      split at h <;> cases h
      refine .inr ⟨_, _, rfl, fun sid' row hrow hsome ↦ ?_⟩
      simp only [Function.update_apply] at hrow
      split at hrow
      · rename_i hsid
        cases hrow
        unfold ThreadRow.withStatus at hsome
        split at hsome
        · cases hsome
        · rename_i old hold
          exact ⟨old, hsid ▸ hold, hsome⟩
      · exact ⟨row, hrow, hsome⟩
  | requestArchive sid =>
      simp only [envStep] at h
      split at h
      · rename_i old hold
        split at h <;> cases h
        refine .inr ⟨_, _, rfl, fun sid' row hrow hsome ↦ ?_⟩
        simp only [Function.update_apply] at hrow
        split at hrow
        · rename_i hsid
          cases hrow
          exact ⟨old, hsid ▸ hold, hsome⟩
        · exact ⟨row, hrow, hsome⟩
      · cases h
  | rollback pid =>
      simp only [envStep] at h
      split at h <;> cases h
      exact .inl ⟨pid, rfl⟩

theorem delivery_proof : dispatcher.Proof (fun _ _ ↦ True) Inv Delivery.Ok where
  env σ e w h _ he := by
    rcases envStep_effect he with ⟨pid, rfl⟩ | ⟨now, sessions, rfl, hrows⟩
    · refine ⟨(h.inv.close pid).emit rfl trivial, fun other p hp ↦ ?_⟩
      by_cases hother : other = pid
      · subst hother
        exact hp.rollback
      · exact hp.spares (((Spares.refl σ.shared).close hother).emit _)
    · constructor
      · refine ⟨h.inv.done, h.inv.locked, fun sid row hrow hsome ↦ ?_, h.inv.lawful⟩
        obtain ⟨old, hold, hsome'⟩ := hrows sid row hrow hsome
        exact h.inv.archived sid old hold hsome'
      · exact fun pid p hp ↦ hp.spares ⟨fun _ ↦ Iff.rfl, rfl, fun _ hkeys ↦ hkeys, List.suffix_refl _⟩
  spawn σ notice w p h _ hn := by
    cases hn
    refine ⟨h.inv, .of_passed ⟨[], rfl, fun _ hmem ↦ (nomatch hmem)⟩ ?_ ?_, fun _ _ _ hr ↦ hr⟩
    · cases notice <;> exact (nomatch ·)
    · cases notice <;> rfl
  exec σ pid p a w p' h _ hp hs := by
    have heffect := Delivery.step_effect hs
    have hok := h.assert pid p hp
    exact ⟨heffect.inv h.inv hok, heffect.ok h.inv hok,
      fun other r hne hr ↦ hr.spares (heffect.spares hne)⟩

theorem Inv.init : Inv .init := by
  refine ⟨fun key ↦ ⟨fun h ↦ (nomatch h), ?_⟩, fun key pid h ↦ (nomatch h),
    fun sid row h ↦ (nomatch h), trivial⟩
  rintro ⟨pid, archives, hmem⟩
  cases hmem

theorem DispatcherReachable.annotated {σ : DispatcherState} (h : DispatcherReachable σ) :
    Machine.Annotated Inv Delivery.Ok σ :=
  delivery_proof.annotated (fun w (hw : w = .init) ↦ hw ▸ Inv.init) h

/-! ## A side effect that failed -/

/-- Since the log was `old`, the side effect of the key was performed. -/
def Repeated (old log : List Event) (key : DeliveryKey) : Prop :=
  ∃ pid new, log = new ++ old ∧ .performed pid (some key) ∈ new

theorem Repeated.mono {old log log' : List Event} {key : DeliveryKey} (h : Repeated old log key)
    (hlog : log <:+ log') : Repeated old log' key := by
  obtain ⟨pid, new, rfl, hmem⟩ := h
  obtain ⟨newer, rfl⟩ := hlog
  exact ⟨pid, newer ++ new, (List.append_assoc _ _ _).symm, List.mem_append_right _ hmem⟩

/-- Whoever holds the key has not performed its side effect, or did so since `old`. -/
def Delivery.Fresh (old : List Event) (key : DeliveryKey) (pid : ℕ) (p : Delivery)
    (w : Dispatcher) : Prop :=
  w.locks key = some pid → ∀ part rest, p.rest = part :: rest → part.key = some key →
    p.stage = .acting true ∨ p.stage = .acted → Repeated old w.log key

structure Reopened (old : List Event) (key : DeliveryKey) (w : Dispatcher) : Prop where
  suffix : old <:+ w.log
  again : Finalized w.log key → Repeated old w.log key

theorem Delivery.Fresh.spares {old : List Event} {key : DeliveryKey} {pid : ℕ} {p : Delivery}
    {w w' : Dispatcher} (h : p.Fresh old key pid w) (hs : Spares pid w w') :
    p.Fresh old key pid w' := by
  intro hlock part rest hrest hkey hstage
  exact (h ((hs.locks key).mp hlock) part rest hrest hkey hstage).mono hs.log

theorem Reopened.emit {old : List Event} {key : DeliveryKey} {w w' : Dispatcher} {e : Event}
    (h : Reopened old key w) (he : e.isFinal = false) (hlog : w'.log = e :: w.log) :
    Reopened old key w' := by
  constructor
  · rw [hlog]
    exact h.suffix.trans (List.suffix_cons e _)
  · rw [hlog]
    intro hfinal
    exact (h.again ((finalized_cons he).mp hfinal)).mono (List.suffix_cons e _)

theorem Reopened.of_log {old : List Event} {key : DeliveryKey} {w w' : Dispatcher}
    (h : Reopened old key w) (hlog : w'.log = w.log) : Reopened old key w' :=
  ⟨hlog ▸ h.suffix, hlog ▸ h.again⟩

namespace StepEffect

variable {pid : ℕ} {w w' : Dispatcher} {p : Delivery} {a : DeliveryAction} {q : Option Delivery}
  {old : List Event} {key : DeliveryKey}

theorem reopened (h : StepEffect pid w p a w' q) (hok : p.Ok pid w) (hw : Reopened old key w)
    (hp : p.Fresh old key pid w) : Reopened old key w' := by
  cases h with
  | passOver | attemptBare | attemptNew | attemptOld | perform | returnBare | returnKeyed
  | raise | finish => exact hw.emit rfl rfl
  | proceed | refuse | lost | insertOld | insertNew | skip | vanished | abort => exact hw.of_log rfl
  | @finalize part rest key' hrest hstage hkey hopen =>
      refine ⟨hw.suffix.trans (List.suffix_cons _ _), ?_⟩
      rintro ⟨pid', archives, hmem⟩
      rcases List.mem_cons.mp hmem with heq | hmem
      · cases heq
        rcases hok.claimed (by rw [hstage]; rfl) part rest key hrest hkey with hlock | ⟨hclosed, -⟩
        · exact (hp hlock part rest hrest hkey (.inr hstage)).mono (List.suffix_cons _ _)
        · rw [hopen] at hclosed
          cases hclosed
      · exact (hw.again ⟨pid', archives, hmem⟩).mono (List.suffix_cons _ _)

theorem fresh (h : StepEffect pid w p a w' q) (hw : Reopened old key w)
    (hp : p.Fresh old key pid w) : ∀ r, q = some r → r.Fresh old key pid w' := by
  have hidle : ∀ {r : Delivery}, r.stage ≠ .acting true → r.stage ≠ .acted →
      r.Fresh old key pid w' := by
    intro r hacting hacted _ _ _ _ _ hstage
    exact (hstage.elim hacting hacted).elim
  intro r hr
  cases h with
  | passOver | refuse | lost | vanished | abort | raise | finish => cases hr
  | proceed | attemptBare | insertOld | insertNew | attemptNew | attemptOld | skip | returnBare
  | finalize =>
      cases hr
      exact hidle (nomatch ·) (nomatch ·)
  | @perform part _ _ hrest =>
      cases hr
      intro _ part' _ hrest' hkey _
      cases hrest.symm.trans hrest'
      obtain ⟨new, hnew⟩ := hw.suffix
      refine ⟨pid, .performed pid part.key :: new, ?_, ?_⟩
      · rw [List.cons_append, hnew]
        rfl
      · rw [hkey]
        exact List.mem_cons_self
  | returnKeyed hrest hstage =>
      cases hr
      intro hlock part rest hrest' hkey _
      exact (hp hlock part rest hrest' hkey (.inl hstage)).mono (List.suffix_cons _ _)

end StepEffect

theorem reopened_proof (old : List Event) (key : DeliveryKey) : dispatcher.Proof
    (fun _ _ ↦ True) (fun w ↦ Inv w ∧ Reopened old key w)
    (fun pid p w ↦ p.Ok pid w ∧ p.Fresh old key pid w) := by
  apply delivery_proof.and
  · intro σ e w _ hw _ he
    rcases envStep_effect he with ⟨pid, rfl⟩ | ⟨now, sessions, rfl, -⟩
    · refine ⟨hw.emit rfl rfl, fun other p _ hp ↦ ?_⟩
      by_cases hother : other = pid
      · subst hother
        intro hlock
        have hclosed : (σ.shared.close other).locks key = some other := hlock
        simp only [Dispatcher.close] at hclosed
        split at hclosed
        · cases hclosed
        · rename_i hnot
          exact (hnot hclosed).elim
      · exact hp.spares (((Spares.refl σ.shared).close hother).emit _)
    · refine ⟨hw.of_log rfl, fun pid p _ hp ↦ hp.spares ?_⟩
      exact ⟨fun _ ↦ Iff.rfl, rfl, fun _ hkeys ↦ hkeys, List.suffix_refl _⟩
  · intro σ notice w p _ hw _ hn
    cases hn
    refine ⟨hw, ?_, fun _ _ _ _ hr ↦ hr⟩
    intro _ part rest _ _ hstage
    cases notice <;> rcases hstage with hstage | hstage <;> cases hstage
  · intro σ pid p a w p' _ hw _ _ hok hp hs
    have heffect := Delivery.step_effect hs
    exact ⟨heffect.reopened hok hw hp, heffect.fresh hw hp,
      fun other r hne _ hr ↦ hr.spares (heffect.spares hne)⟩

/-- If the key is free and not done, its side effect is performed before it is done. -/
theorem repeated_of_done {σ τ : DispatcherState} {key : DeliveryKey}
    (h : DispatcherReachable σ) (hnot : ¬ Finalized σ.shared.log key)
    (hfree : σ.shared.locks key = none) (hreach : dispatcher.Reaches σ τ)
    (hdone : Finalized τ.shared.log key) : Repeated σ.shared.log τ.shared.log key := by
  have hσ := h.annotated
  have hstart : Machine.Annotated (fun w ↦ Inv w ∧ Reopened σ.shared.log key w)
      (fun pid p w ↦ p.Ok pid w ∧ p.Fresh σ.shared.log key pid w) σ := by
    refine ⟨⟨hσ.inv, List.suffix_refl _, fun hfinal ↦ (hnot hfinal).elim⟩, ?_, hσ.fresh⟩
    intro pid p hp
    refine ⟨hσ.assert pid p hp, fun hlock ↦ ?_⟩
    cases hfree.symm.trans hlock
  have hτ := hreach.preserves (fun _ _ _ hann _ hs ↦
    hann.step (reopened_proof σ.shared.log key) trivial hs) hstart
  exact hτ.inv.2.again hdone

end Discode.NoticeDelivery
