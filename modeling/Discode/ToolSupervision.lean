import Discode.Library.TransitionSystem
import Mathlib.Data.Nat.Notation
import Mathlib.Tactic.SplitIfs

/-!
# Supervision of a tool

`_deliver` runs a tool with `ExecSession.run` and watches its session meanwhile.  Both are tasks
that are cancelled when the other one ends, and `_deliver` itself may be cancelled whenever it
waits.  The processes of the tool do as they like, and time passes as far as the timers of the
event loop let it.
-/

set_option autoImplicit false

namespace Discode.Supervision

/-! ## The parties -/

/-- `_PIPE_GRACE_SECONDS`, in milliseconds as everything here. -/
def pipeGrace : ℕ := 2000

/-- `_REAP_TIMEOUT_SECONDS`. -/
def reapTimeout : ℕ := 5000

/-- `_EXEC_TIMEOUT_SECONDS`. -/
def execTimeout : ℕ := 300000

/-- `_REVOCATION_POLL_SECONDS`. -/
def revocationPoll : ℕ := 2000

/-- The process group of a tool; the group leader is the process that was spawned. -/
structure Group where
  /-- How many processes of the group live. -/
  members : ℕ
  leaderExited : Bool
  deriving DecidableEq, Repr

/-- The exception that `run` is cleaning up after. -/
inductive Exc where
  | timeout
  | cancelled
  deriving DecidableEq, Repr

/-- What a cancellation that ended `run` has cut short. -/
inductive Cut where
  | nothing
  | spawning
  /-- The wait for the readers that the `except` clause has cancelled. -/
  | gathering
  deriving DecidableEq, Repr

inductive RunOutcome where
  | output
  /-- `ExecFailed`, or an error of the operating system. -/
  | failed
  | timedOut
  | cancelled (cut : Cut)
  deriving DecidableEq, Repr

/-- Where `_run_pipe` or `_run_pty` waits. -/
inductive RunStage where
  | notStarted
  | spawning
  /-- For the leader to exit. -/
  | polling
  /-- For the readers, with the timeout of the wait. -/
  | grace (due : ℕ)
  /-- For the readers after the kill. -/
  | draining (due : ℕ)
  /-- For the readers that were given up and cancelled. -/
  | dropping
  | gathering (exc : Exc)
  /-- For the task of `_reap`, which a cancellation does not reach. -/
  | reaping (exc : Exc)
  | ended (outcome : RunOutcome)
  deriving DecidableEq, Repr

/-- The task of `_reap`. -/
inductive Reaper where
  | idle
  | scheduled
  | waiting (due : ℕ)
  | done
  deriving DecidableEq, Repr

/-- Where `monitor` waits, or when it ended. -/
inductive MonitorStage where
  | notStarted
  | sleeping (due : ℕ)
  | checking
  | ended (time : ℕ)
  deriving DecidableEq, Repr

inductive Delivery where
  /-- The reply is the output of the tool. -/
  | output
  /-- The reply tells the user that the tool was not run, or failed. -/
  | apology
  | refused
  | cancelled
  deriving DecidableEq, Repr

inductive DeliverStage where
  | building
  | waiting
  /-- The `finally` clause, after which `_deliver` ends like this. -/
  | cleaning (delivery : Delivery)
  | ended (delivery : Delivery)
  deriving DecidableEq, Repr

structure State where
  now : ℕ
  group : Group
  /-- When the `asyncio.timeout` of `run` is due. -/
  deadline : Option ℕ
  run : RunStage
  /-- A `cancel` that the task has not seen yet. -/
  cancelRun : Bool
  reaper : Reaper
  monitor : MonitorStage
  cancelMonitor : Bool
  deliver : DeliverStage
  cancelDeliver : Bool
  deriving DecidableEq, Repr

/-! ## Actions -/

inductive ToolAction where
  | fork
  /-- A process other than the leader exits, or leaves the group with `setsid`. -/
  | leave
  | leaderExit
  deriving DecidableEq, Repr

inductive RunAction where
  | spawned
  | spawnFails
  /-- A reader has seen more than `kill_output_bytes`. -/
  | runaway
  | poll
  /-- `asyncio.wait` returns; `ok` is whether `_result` returns. -/
  | waited (allDone ok : Bool)
  | dropped (ok : Bool)
  | timeout
  | gathered
  | reaped
  /-- `CancelledError` is thrown; asyncio kills the leader of a process that is being spawned. -/
  | cancelled (survivors : ℕ)
  deriving DecidableEq, Repr

inductive ReaperAction where
  | kill
  | finish
  deriving DecidableEq, Repr

inductive MonitorAction where
  /-- `ensure_execution_allowed`. -/
  | wake (allowed : Bool)
  /-- The answer of the query, if it does not raise. -/
  | answer (valid : Option Bool)
  | cancelled
  deriving DecidableEq, Repr

inductive DeliverAction where
  | refuse
  | build
  | buildFails
  | proceed
  | finish
  | cancelled
  deriving DecidableEq, Repr

inductive Action where
  | tick (ms : ℕ)
  | tool (a : ToolAction)
  | run (a : RunAction)
  | reaper (a : ReaperAction)
  | monitor (a : MonitorAction)
  | deliver (a : DeliverAction)
  /-- Somebody cancels `_deliver`. -/
  | cancel
  deriving DecidableEq, Repr

/-! ## Steps -/

def stepTool (g : Group) : ToolAction → Option Group
  | .fork => if g.members = 0 then none else some { g with members := g.members + 1 }
  | .leave =>
      if g.members ≤ (if g.leaderExited then 0 else 1) then none
      else some { g with members := g.members - 1 }
  | .leaderExit =>
      if g.members = 0 ∨ g.leaderExited = true then none else some ⟨g.members - 1, true⟩

/-- `_killpg`. -/
def Group.killed : Group := ⟨0, true⟩

def RunStage.isOver : RunStage → Bool
  | notStarted | ended _ => true
  | _ => false

/-- The stages inside `async with asyncio.timeout`. -/
def RunStage.isTimed : RunStage → Bool
  | polling | grace _ | draining _ | dropping => true
  | _ => false

def resultOf (ok : Bool) : RunOutcome := if ok then .output else .failed

def Exc.outcome : Exc → RunOutcome
  | timeout => .timedOut
  | cancelled => .cancelled .nothing

/-- A step of `run` that is not cancelled. -/
def stepRun (σ : State) (a : RunAction) : Option State :=
  match σ.run, a with
  | .spawning, .spawned => some { σ with
      group := ⟨1, false⟩, deadline := some (σ.now + execTimeout), run := .polling }
  | .spawning, .spawnFails => some { σ with run := .ended .failed }
  | .polling, .poll =>
      if σ.group.leaderExited then some { σ with run := .grace (σ.now + pipeGrace) } else none
  | .grace due, .waited allDone ok =>
      if allDone then some { σ with group := .killed, run := .ended (resultOf ok) }
      else if due ≤ σ.now then
        some { σ with group := .killed, run := .draining (σ.now + reapTimeout) }
      else none
  | .draining due, .waited allDone ok =>
      if allDone then some { σ with run := .ended (resultOf ok) }
      else if due ≤ σ.now then some { σ with run := .dropping }
      else none
  | .dropping, .dropped ok => some { σ with run := .ended (resultOf ok) }
  | .gathering exc, .gathered => some { σ with run := .reaping exc, reaper := .scheduled }
  | .reaping exc, .reaped =>
      if σ.reaper = .done then some { σ with run := .ended exc.outcome } else none
  | stage, .runaway => if stage.isTimed then some { σ with group := .killed } else none
  | stage, .timeout =>
      if stage.isTimed = true ∧ σ.deadline.any (· ≤ σ.now) = true then
        some { σ with run := .gathering .timeout }
      else none
  | _, _ => none

/-- `CancelledError` in `run`. -/
def cancelRun (σ : State) (survivors : ℕ) : Option State :=
  match σ.run with
  | .spawning => some { σ with
      cancelRun := false, group := ⟨survivors, true⟩, run := .ended (.cancelled .spawning) }
  | .gathering _ => some { σ with cancelRun := false, run := .ended (.cancelled .gathering) }
  | .reaping _ => some { σ with cancelRun := false, run := .ended (.cancelled .nothing) }
  | .notStarted | .ended _ => none
  | _ => some { σ with cancelRun := false, run := .gathering .cancelled }

def stepReaper (σ : State) : ReaperAction → Option State
  | .kill =>
      if σ.reaper = .scheduled then
        some { σ with group := .killed, reaper := .waiting (σ.now + reapTimeout) }
      else none
  | .finish => match σ.reaper with
      | .waiting _ => some { σ with reaper := .done }
      | _ => none

def stepMonitor (σ : State) (a : MonitorAction) : Option State :=
  match σ.monitor, a with
  | .sleeping due, .wake allowed =>
      if σ.cancelMonitor = true ∨ σ.now < due then none
      else some { σ with monitor := if allowed then .checking else .ended σ.now }
  | .checking, .answer valid =>
      if σ.cancelMonitor then none
      else if valid = some false then some { σ with monitor := .ended σ.now }
      else some { σ with monitor := .sleeping (σ.now + revocationPoll) }
  | .sleeping _, .cancelled | .checking, .cancelled =>
      if σ.cancelMonitor then some { σ with monitor := .ended σ.now, cancelMonitor := false }
      else none
  | _, _ => none

def MonitorStage.isOver : MonitorStage → Bool
  | notStarted | ended _ => true
  | _ => false

/-- The `finally` clause cancels both tasks. -/
def State.clean (σ : State) (delivery : Delivery) : State :=
  { σ with
    cancelRun := !σ.run.isOver
    cancelMonitor := !σ.monitor.isOver
    deliver := .cleaning delivery
    cancelDeliver := false }

/-- What `_deliver` does with the tasks that are done. -/
def deliveryOf (run : RunStage) (monitor : MonitorStage) : Delivery :=
  if monitor.isOver then .apology
  else if run = .ended .output then .output
  else .apology

def stepDeliver (σ : State) (a : DeliverAction) : Option State :=
  match σ.deliver, a with
  | .building, .refuse => if σ.cancelDeliver then none else some { σ with deliver := .ended .refused }
  | .building, .buildFails =>
      if σ.cancelDeliver then none else some { σ with deliver := .ended .apology }
  | .building, .build =>
      if σ.cancelDeliver then none
      else some { σ with
        run := .spawning, monitor := .sleeping (σ.now + revocationPoll), deliver := .waiting }
  | .building, .cancelled =>
      if σ.cancelDeliver then some { σ with deliver := .ended .cancelled, cancelDeliver := false }
      else none
  | .waiting, .proceed =>
      if σ.cancelDeliver then none
      else if σ.run.isOver || σ.monitor.isOver then some (σ.clean (deliveryOf σ.run σ.monitor))
      else none
  | .waiting, .cancelled => if σ.cancelDeliver then some (σ.clean .cancelled) else none
  | .cleaning delivery, .finish =>
      if σ.run.isOver && σ.monitor.isOver then some { σ with deliver := .ended delivery } else none
  | _, _ => none

/-- The `gather` of the `finally` clause hands a cancellation on to the tasks. -/
def cancelDeliver (σ : State) : Option State :=
  match σ.deliver with
  | .building | .waiting => some { σ with cancelDeliver := true }
  | .cleaning _ => some (σ.clean .cancelled)
  | .ended _ => none

/-- Something is due now: a cancellation, a task that can go on, or a reader that was cancelled. -/
def State.isUrgent (σ : State) : Bool :=
  σ.cancelRun || σ.cancelMonitor || σ.cancelDeliver || σ.reaper = .scheduled ||
  (match σ.run with
    | .dropping | .gathering _ => true
    | .reaping _ => σ.reaper = .done
    | _ => false) ||
  (σ.deliver = .waiting && (σ.run.isOver || σ.monitor.isOver))

/-- The timers of `run` and of `_reap`. -/
def State.timers (σ : State) : List ℕ :=
  (if σ.run.isTimed then σ.deadline.toList else []) ++
  (match σ.run with
    | .grace due | .draining due => [due]
    | _ => []) ++
  (match σ.reaper with
    | .waiting due => [due]
    | _ => [])

def step (σ : State) : Action → Option State
  | .tick ms =>
      if σ.isUrgent = false ∧ ∀ due ∈ σ.timers, σ.now + ms ≤ due then
        some { σ with now := σ.now + ms }
      else none
  | .tool a => (stepTool σ.group a).map fun group ↦ { σ with group }
  | .run (.cancelled survivors) => if σ.cancelRun then cancelRun σ survivors else none
  | .run a => if σ.cancelRun then none else stepRun σ a
  | .reaper a => stepReaper σ a
  | .monitor a => stepMonitor σ a
  | .deliver a => stepDeliver σ a
  | .cancel => cancelDeliver σ

def State.start (now : ℕ) : State :=
  ⟨now, ⟨0, true⟩, none, .notStarted, false, .idle, .notStarted, false, .building, false⟩

def supervision : TransitionSystem State Action where
  init σ := ∃ now, σ = .start now
  step := step

/-! ## What `run` can do -/

/-- A step of `run`, with the state it leads to. -/
inductive RunStep (σ : State) : State → Prop where
  | spawned (hrun : σ.run = .spawning) : RunStep σ { σ with
      group := ⟨1, false⟩, deadline := some (σ.now + execTimeout), run := .polling }
  | spawnFails (hrun : σ.run = .spawning) : RunStep σ { σ with run := .ended .failed }
  | runaway (hrun : σ.run.isTimed = true) : RunStep σ { σ with group := .killed }
  | poll (hrun : σ.run = .polling) : RunStep σ { σ with run := .grace (σ.now + pipeGrace) }
  | graceEnds {due : ℕ} (hrun : σ.run = .grace due) (ok : Bool) :
      RunStep σ { σ with group := .killed, run := .ended (resultOf ok) }
  | graceExpires {due : ℕ} (hrun : σ.run = .grace due) :
      RunStep σ { σ with group := .killed, run := .draining (σ.now + reapTimeout) }
  | drained {due : ℕ} (hrun : σ.run = .draining due) (ok : Bool) :
      RunStep σ { σ with run := .ended (resultOf ok) }
  | drainExpires {due : ℕ} (hrun : σ.run = .draining due) : RunStep σ { σ with run := .dropping }
  | dropped (hrun : σ.run = .dropping) (ok : Bool) :
      RunStep σ { σ with run := .ended (resultOf ok) }
  | timeout (hrun : σ.run.isTimed = true) : RunStep σ { σ with run := .gathering .timeout }
  | gathered {exc : Exc} (hrun : σ.run = .gathering exc) :
      RunStep σ { σ with run := .reaping exc, reaper := .scheduled }
  | reaped {exc : Exc} (hrun : σ.run = .reaping exc) (hreaper : σ.reaper = .done) :
      RunStep σ { σ with run := .ended exc.outcome }
  | cutSpawning (hrun : σ.run = .spawning) (survivors : ℕ) : RunStep σ { σ with
      cancelRun := false, group := ⟨survivors, true⟩, run := .ended (.cancelled .spawning) }
  | cancelled (hrun : σ.run.isTimed = true) :
      RunStep σ { σ with cancelRun := false, run := .gathering .cancelled }
  | cutGathering {exc : Exc} (hrun : σ.run = .gathering exc) :
      RunStep σ { σ with cancelRun := false, run := .ended (.cancelled .gathering) }
  | cutReaping {exc : Exc} (hrun : σ.run = .reaping exc) :
      RunStep σ { σ with cancelRun := false, run := .ended (.cancelled .nothing) }

theorem stepRun_cases {σ τ : State} {a : RunAction} (h : stepRun σ a = some τ) : RunStep σ τ := by
  unfold stepRun at h
  split at h
  · rename_i hrun
    cases h
    exact .spawned hrun
  · rename_i hrun
    cases h
    exact .spawnFails hrun
  · rename_i hrun
    split_ifs at h
    cases h
    exact .poll hrun
  · rename_i hrun
    split_ifs at h
    · cases h
      exact .graceEnds hrun _
    · cases h
      exact .graceExpires hrun
  · rename_i hrun
    split_ifs at h
    · cases h
      exact .drained hrun _
    · cases h
      exact .drainExpires hrun
  · rename_i hrun
    cases h
    exact .dropped hrun _
  · rename_i hrun
    cases h
    exact .gathered hrun
  · rename_i hrun
    split_ifs at h with hreaper
    cases h
    exact .reaped hrun hreaper
  · split_ifs at h with htimed
    cases h
    exact .runaway htimed
  · split_ifs at h with htimed
    cases h
    exact .timeout htimed.1
  · cases h

theorem cancelRun_cases {σ τ : State} {survivors : ℕ} (h : cancelRun σ survivors = some τ) :
    RunStep σ τ := by
  unfold cancelRun at h
  split at h
  · rename_i hrun
    cases h
    exact .cutSpawning hrun survivors
  · rename_i hrun
    cases h
    exact .cutGathering hrun
  · rename_i hrun
    cases h
    exact .cutReaping hrun
  · cases h
  · cases h
  · cases h
    cases hrun : σ.run with
    | polling | grace due | draining due | dropping => exact .cancelled (by rw [hrun]; rfl)
    | _ => simp_all

/-- A task that a cancellation is waiting for goes on with nothing else. -/
theorem step_run {σ τ : State} {a : RunAction} (h : step σ (.run a) = some τ) :
    RunStep σ τ ∧ (σ.cancelRun = true → ∃ survivors, cancelRun σ survivors = some τ) := by
  cases a with
  | cancelled survivors =>
      simp only [step] at h
      split_ifs at h
      exact ⟨cancelRun_cases h, fun _ ↦ ⟨survivors, h⟩⟩
  | _ =>
      simp only [step] at h
      split_ifs at h with hcancel
      exact ⟨stepRun_cases h, fun hcancelled ↦ absurd hcancelled hcancel⟩

end Discode.Supervision
