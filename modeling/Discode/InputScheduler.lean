import Discode.Database
import Discode.Library.TransitionSystem

/-!
# `_consume_input_stream`

The coroutine that accepts messages and the tasks it creates, between any two points at which
they wait.  A run ends where the coroutine is cancelled or leaves its loop, and with it the
tasks that its `finally` cancels.  The history is never read by the code.
-/

set_option autoImplicit false

namespace Discode

namespace InputScheduler

variable {F : Type*}

/-! ## Tasks -/

inductive Stage where
  /-- Awaits the task before it in its session. -/
  | waiting
  /-- Awaits a slot of the semaphore. -/
  | queued
  | handling
  | acking
  | done (cancelled : Bool)
  deriving DecidableEq, Repr

/-- A call of `process`; a task is known by its place in the order of admission. -/
structure Task (F : Type*) where
  mid : ℕ
  fields : F
  session : SessionId
  previous : Option ℕ
  stage : Stage

namespace Task

def isDone (t : Task F) : Bool :=
  match t.stage with
  | .done _ => true
  | _ => false

def isHandling (t : Task F) : Bool := t.stage = .handling

/-- Inside `async with slots`. -/
def holdsSlot (t : Task F) : Bool := t.stage = .handling ∨ t.stage = .acking

end Task

inductive Event (F : Type*) where
  | accepted (task mid : ℕ) (session : SessionId)
  | started (task : ℕ) (session : SessionId)
  /-- The handler returned, or raised where the result is `none`. -/
  | ended (task : ℕ) (result : Option Bool)
  /-- `XACK`. -/
  | acked (mid : ℕ)
  | deadLettered (mid : ℕ) (fields : F)
  | stopped
  deriving DecidableEq, Repr

/-! ## The state -/

/-- Where the coroutine is. -/
inductive Main (F : Type*) where
  | top
  | full
  | claiming
  | reading
  | retrying
  | repeated (messages : List (ℕ × F))
  | batch (messages : List (ℕ × F))
  | accept (message : ℕ × F) (rest : List (ℕ × F))
  | deadLettering (message : ℕ × F) (rest : List (ℕ × F))
  | draining
  | ended

structure State (F : Type*) where
  main : Main F
  tasks : List (Task F)
  active : List ℕ
  tails : SessionId → Option ℕ
  inflight : List ℕ
  slots : ℕ
  stop : Bool
  log : List (Event F)

/-- The arguments of the coroutine, with the session a message's payload names; `none`
where `json.loads`, the key or its type fails. -/
structure Config (F : Type*) where
  sessionId : F → Option SessionId
  concurrency : ℕ

def Config.queueCapacity (c : Config F) : ℕ := c.concurrency * 8

def State.start (c : Config F) : State F where
  main := .top
  tasks := []
  active := []
  tails := fun _ ↦ none
  inflight := []
  slots := c.concurrency
  stop := false
  log := []

namespace State

variable (s : State F)

/-- `task.done()`. -/
def done (i : ℕ) : Bool := s.tasks[i]?.any Task.isDone

/-- The tasks of `active` that are not done. -/
def pending : List ℕ := s.active.filter fun i ↦ !s.done i

def emit (e : Event F) : State F := { s with log := e :: s.log }

def at_ (main : Main F) : State F := { s with main := main }

def setTask (i : ℕ) (t : Task F) : State F := { s with tasks := s.tasks.set i t }

/-- The end of `process`: the slot is released and the message leaves `inflight`. -/
def finish (i : ℕ) (t : Task F) (cancelled : Bool) : State F :=
  { s.setTask i { t with stage := .done cancelled } with
    inflight := s.inflight.filter (· ≠ t.mid)
    slots := s.slots + (if t.holdsSlot then 1 else 0) }

/-- The messages of one read; they wait a little when all of them are in progress. -/
def received (messages : List (ℕ × F)) : Main F :=
  if !messages.isEmpty && messages.all fun m ↦ s.inflight.contains m.1 then .repeated messages
  else .batch messages

/-- `create_task` and the three updates around it. -/
def accept (message : ℕ × F) (session : SessionId) (rest : List (ℕ × F)) : State F :=
  { s with
    main := .batch rest
    tasks := s.tasks ++ [⟨message.1, message.2, session, s.tails session, .waiting⟩]
    active := s.active ++ [s.tasks.length]
    tails := fun sid ↦ if sid = session then some s.tasks.length else s.tails sid
    inflight := message.1 :: s.inflight
    log := .accepted s.tasks.length message.1 session :: s.log }

end State

/-! ## Steps -/

inductive MainAction (F : Type*) where
  | loop
  | claimed (messages : List (ℕ × F))
  | read (messages : List (ℕ × F))
  | readFails
  /-- What the coroutine waits for has happened. -/
  | wake
  | next
  | deadLettered
  | drained
  /-- The coroutine is cancelled, or an exception leaves the loop. -/
  | leave

inductive TaskAction where
  | proceed
  | acquire
  | returns (result : Bool)
  | raises
  /-- The handler raises `CancelledError`, which `except Exception` does not catch. -/
  | cancels
  | acked
  | ackRaises (applied : Bool)
  deriving DecidableEq, Repr

inductive Action (F : Type*) where
  | main (a : MainAction F)
  | task (i : ℕ) (a : TaskAction)
  /-- `stop.set()`. -/
  | stop

def mainStep (c : Config F) (s : State F) : MainAction F → Option (State F)
  | .loop =>
      match s.main with
      | .top =>
          if s.stop then
            some { s with
              active := s.pending, main := if s.pending.isEmpty then .ended else .draining }
          else some { s with
            active := s.pending, tails := fun sid ↦ (s.tails sid).filter fun i ↦ !s.done i
            main := if c.queueCapacity ≤ s.pending.length then .full else .claiming }
      | _ => none
  | .claimed messages =>
      match s.main with
      | .claiming => some (s.at_ (if messages.isEmpty then .reading else s.received messages))
      | _ => none
  | .read messages =>
      match s.main with
      | .reading => some (s.at_ (s.received messages))
      | _ => none
  | .readFails =>
      match s.main with
      | .claiming | .reading => some (s.at_ .retrying)
      | _ => none
  | .wake =>
      match s.main with
      | .full => if s.active.any s.done then some (s.at_ .top) else none
      | .retrying => some (s.at_ .top)
      | .repeated messages => some (s.at_ (.batch messages))
      | .accept _ _ =>
          if c.queueCapacity ≤ s.active.length ∧ s.active.any s.done then
            some { s with active := s.pending }
          else none
      | _ => none
  | .next =>
      match s.main with
      | .batch [] => some (s.at_ .top)
      | .batch (m :: rest) =>
          some (s.at_ (if s.inflight.contains m.1 then .batch rest else .accept m rest))
      | .accept m rest =>
          if c.queueCapacity ≤ s.active.length then none
          else match c.sessionId m.2 with
            | none => some (s.at_ (.deadLettering m rest))
            | some session => some (s.accept m session rest)
      | _ => none
  | .deadLettered =>
      match s.main with
      | .deadLettering m rest =>
          some (((s.emit (.deadLettered m.1 m.2)).emit (.acked m.1)).at_ (.batch rest))
      | _ => none
  | .drained =>
      match s.main with
      | .draining => some (s.at_ .ended)
      | _ => none
  | .leave => some (s.at_ .ended)

def taskStep (s : State F) (i : ℕ) (t : Task F) : TaskAction → Option (State F)
  | .proceed =>
      match t.stage with
      | .waiting =>
          match t.previous with
          | none => some (s.setTask i { t with stage := .queued })
          | some p =>
              match s.tasks[p]?.map Task.stage with
              | some (.done false) => some (s.setTask i { t with stage := .queued })
              | some (.done true) => some (s.finish i t true)
              | _ => none
      | _ => none
  | .acquire =>
      match t.stage with
      | .queued =>
          if s.slots = 0 then none
          else if s.stop then some (s.finish i t false)
          else some { (s.setTask i { t with stage := .handling }).emit (.started i t.session) with
            slots := s.slots - 1 }
      | _ => none
  | .returns result =>
      match t.stage with
      | .handling =>
          let s := s.emit (.ended i (some result))
          some (if result then s.setTask i { t with stage := .acking } else s.finish i t false)
      | _ => none
  | .raises =>
      match t.stage with
      | .handling => some ((s.emit (.ended i none)).finish i t false)
      | _ => none
  | .cancels =>
      match t.stage with
      | .handling => some ((s.emit (.ended i none)).finish i t true)
      | _ => none
  | .acked =>
      match t.stage with
      | .acking => some ((s.emit (.acked t.mid)).finish i t false)
      | _ => none
  | .ackRaises applied =>
      match t.stage with
      | .acking => some ((if applied then s.emit (.acked t.mid) else s).finish i t false)
      | _ => none

def isEnded : Main F → Bool
  | .ended => true
  | _ => false

def step (c : Config F) (s : State F) (a : Action F) : Option (State F) :=
  if isEnded s.main then none
  else match a with
    | .main a => mainStep c s a
    | .task i a => s.tasks[i]?.bind fun t ↦ taskStep s i t a
    | .stop => some ({ s with stop := true }.emit .stopped)

def scheduler (c : Config F) : TransitionSystem (State F) (Action F) where
  init := fun s ↦ s = .start c
  step := step c

/-! ## What a step of a task does -/

inductive TaskEffect (s : State F) (i : ℕ) (t : Task F) : State F → Prop where
  | queue (hstage : t.stage = .waiting) (hprevious : ∀ p, t.previous = some p → s.done p = true) :
      TaskEffect s i t (s.setTask i { t with stage := .queued })
  | start (hstage : t.stage = .queued) (hslots : 0 < s.slots) (hstop : s.stop = false) :
      TaskEffect s i t { (s.setTask i { t with stage := .handling }).emit
        (.started i t.session) with slots := s.slots - 1 }
  | ack (hstage : t.stage = .handling) : TaskEffect s i t
      ((s.emit (.ended i (some true))).setTask i { t with stage := .acking })
  | abandon (hstage : t.stage = .waiting) (hprevious : ∀ p, t.previous = some p → s.done p = true) :
      TaskEffect s i t (s.finish i t true)
  | refuse (hstage : t.stage = .queued) : TaskEffect s i t (s.finish i t false)
  | giveUp (hstage : t.stage = .handling) (result : Option Bool) (cancelled : Bool) :
      TaskEffect s i t ((s.emit (.ended i result)).finish i t cancelled)
  | acked (hstage : t.stage = .acking) :
      TaskEffect s i t ((s.emit (.acked t.mid)).finish i t false)
  | ackLost (hstage : t.stage = .acking) : TaskEffect s i t (s.finish i t false)

theorem done_of_stage {s : State F} {p : ℕ} {cancelled : Bool}
    (h : s.tasks[p]?.map Task.stage = some (.done cancelled)) : s.done p = true := by
  obtain ⟨t, ht, hstage⟩ := Option.map_eq_some_iff.mp h
  simp [State.done, ht, Task.isDone, hstage]

theorem taskStep_effect {s s' : State F} {i : ℕ} {t : Task F} {a : TaskAction}
    (h : taskStep s i t a = some s') : TaskEffect s i t s' := by
  cases a with
  | proceed =>
      simp only [taskStep] at h
      split at h
      · rename_i hstage
        split at h
        · rename_i hnone
          cases h
          exact .queue hstage fun p hp ↦ by rw [hnone] at hp; cases hp
        · rename_i p hp
          have hdone : ∀ {cancelled}, s.tasks[p]?.map Task.stage = some (.done cancelled) →
              ∀ q, t.previous = some q → s.done q = true := by
            intro cancelled hc q hq
            have hqp : p = q := Option.some.inj (hp.symm.trans hq)
            exact hqp ▸ done_of_stage hc
          split at h
          · rename_i hc
            cases h
            exact .queue hstage (hdone hc)
          · rename_i hc
            cases h
            exact .abandon hstage (hdone hc)
          · cases h
      · cases h
  | acquire =>
      simp only [taskStep] at h
      split at h
      · rename_i hstage
        split at h
        · cases h
        · rename_i hslots
          split at h
          · cases h
            exact .refuse hstage
          · rename_i hstop
            cases h
            exact .start hstage (Nat.pos_of_ne_zero hslots) (Bool.not_eq_true _ ▸ hstop)
      · cases h
  | returns result =>
      simp only [taskStep] at h
      split at h
      · rename_i hstage
        cases h
        cases result with
        | true => exact .ack hstage
        | false => exact .giveUp hstage (some false) false
      · cases h
  | raises =>
      simp only [taskStep] at h
      split at h <;> cases h
      rename_i hstage
      exact .giveUp hstage none false
  | cancels =>
      simp only [taskStep] at h
      split at h <;> cases h
      rename_i hstage
      exact .giveUp hstage none true
  | acked =>
      simp only [taskStep] at h
      split at h <;> cases h
      rename_i hstage
      exact .acked hstage
  | ackRaises applied =>
      simp only [taskStep] at h
      split at h
      · rename_i hstage
        cases h
        cases applied with
        | true => exact .acked hstage
        | false => exact .ackLost hstage
      · cases h

theorem TaskEffect.mem_log {s s' : State F} {i : ℕ} {t : Task F} {e : Event F}
    (h : TaskEffect s i t s')
    (he : e ∈ s.log) : e ∈ s'.log := by
  cases h with
  | queue hstage hprevious => exact he
  | start hstage hslots hstop => exact List.mem_cons_of_mem _ he
  | ack hstage => exact List.mem_cons_of_mem _ he
  | abandon hstage hprevious => exact he
  | refuse hstage => exact he
  | giveUp hstage result cancelled => exact List.mem_cons_of_mem _ he
  | acked hstage => exact List.mem_cons_of_mem _ he
  | ackLost hstage => exact he

/-- One task goes on, and with it at most its slot and its place in `inflight`. -/
structure Retask (s s' : State F) (i : ℕ) (t t' : Task F) : Prop where
  get : s.tasks[i]? = some t
  tasks : s'.tasks = s.tasks.set i t'
  mid : t'.mid = t.mid
  session : t'.session = t.session
  previous : t'.previous = t.previous
  unfinished : t.isDone = false
  turn : t.stage = .waiting → ∀ p, t.previous = some p → s.done p = true
  main : s'.main = s.main
  active : s'.active = s.active
  tails : s'.tails = s.tails
  stop : s'.stop = s.stop
  inflight : ∀ mid, mid ∈ s'.inflight ↔ mid ∈ s.inflight ∧ (t'.isDone = true → mid ≠ t.mid)
  slots : s'.slots + (if t'.holdsSlot then 1 else 0) = s.slots + (if t.holdsSlot then 1 else 0)

theorem retask_finish {s : State F} {i : ℕ} {t : Task F} (h : s.tasks[i]? = some t)
    (hlive : t.isDone = false) (hturn : t.stage = .waiting → ∀ p, t.previous = some p →
      s.done p = true) (cancelled : Bool) :
    Retask s (s.finish i t cancelled) i t { t with stage := .done cancelled } := by
  refine ⟨h, rfl, rfl, rfl, rfl, hlive, hturn, rfl, rfl, rfl, rfl, fun mid ↦ ?_, ?_⟩
  · simp [State.finish, Task.isDone]
  · simp [State.finish, Task.holdsSlot]

/-- A task that goes on leaves its old stage for good. -/
theorem TaskEffect.retask {s s' : State F} {i : ℕ} {t : Task F} (h : TaskEffect s i t s')
    (hget : s.tasks[i]? = some t) : ∃ t', Retask s s' i t t' ∧ t'.stage ≠ .waiting := by
  have hemit : ∀ (e : Event F) {cancelled : Bool}, t.isDone = false →
      (t.stage = .waiting → ∀ p, t.previous = some p → s.done p = true) →
      ∃ t', Retask s ((s.emit e).finish i t cancelled) i t t' ∧ t'.stage ≠ .waiting := by
    intro e cancelled hlive hturn
    obtain ⟨hg, ht, hm, hs, hp, hl, hw, hmain, ha, htl, hst, hin, hsl⟩ :=
      retask_finish (s := s.emit e) hget hlive hturn cancelled
    exact ⟨_, ⟨hg, ht, hm, hs, hp, hl, hw, hmain, ha, htl, hst, hin, hsl⟩, by simp⟩
  cases h with
  | queue hstage hprevious =>
      refine ⟨_, ⟨hget, rfl, rfl, rfl, rfl, ?_, fun _ ↦ hprevious, rfl, rfl, rfl, rfl, ?_, ?_⟩, ?_⟩
      · simp [Task.isDone, hstage]
      · simp [State.setTask, Task.isDone]
      · simp [State.setTask, Task.holdsSlot, hstage]
      · simp
  | start hstage hslots hstop =>
      refine ⟨_, ⟨hget, rfl, rfl, rfl, rfl, ?_, ?_, rfl, rfl, rfl, rfl, ?_, ?_⟩, ?_⟩
      · simp [Task.isDone, hstage]
      · simp [hstage]
      · simp [State.setTask, State.emit, Task.isDone]
      · simp only [Task.holdsSlot, hstage]
        simp
        omega
      · simp
  | ack hstage =>
      refine ⟨_, ⟨hget, rfl, rfl, rfl, rfl, ?_, ?_, rfl, rfl, rfl, rfl, ?_, ?_⟩, ?_⟩
      · simp [Task.isDone, hstage]
      · simp [hstage]
      · simp [State.setTask, State.emit, Task.isDone]
      · simp [State.setTask, State.emit, Task.holdsSlot, hstage]
      · simp
  | abandon hstage hprevious =>
      exact ⟨_, retask_finish hget (by simp [Task.isDone, hstage]) (fun _ ↦ hprevious) true, by simp⟩
  | refuse hstage =>
      exact ⟨_, retask_finish hget (by simp [Task.isDone, hstage]) (by simp [hstage]) false, by simp⟩
  | giveUp hstage result cancelled =>
      exact hemit _ (by simp [Task.isDone, hstage]) (by simp [hstage])
  | acked hstage => exact hemit _ (by simp [Task.isDone, hstage]) (by simp [hstage])
  | ackLost hstage =>
      exact ⟨_, retask_finish hget (by simp [Task.isDone, hstage]) (by simp [hstage]) false, by simp⟩

end InputScheduler

end Discode
