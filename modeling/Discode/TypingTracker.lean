import Discode.Library.ProcessPool
import Discode.Turns

/-!
# The typing indicator

The tracker of a bot process, the watchers of the accepted turns and the safety timeouts.  One
step is what a task does between two points at which it is suspended.
-/

set_option autoImplicit false

namespace Discode.Typing

open ProcessPool (Machine)

/-! ## The tracker -/

/-- The dicts of `TypingTracker`.  An indicator and its safety timeout are named after the message
that created them. -/
structure Tracker where
  counts : ThreadId → Option ℕ
  tasks : ThreadId → Option ℕ
  timeouts : ThreadId → Option ℕ

namespace Tracker

def empty : Tracker := ⟨fun _ ↦ none, fun _ ↦ none, fun _ ↦ none⟩

def pending (t : Tracker) (thread : ThreadId) : ℕ := (t.counts thread).getD 0

def isRunning (t : Tracker) (thread : ThreadId) : Bool := (t.tasks thread).isSome

def setCount (t : Tracker) (thread : ThreadId) (n : ℕ) : Tracker :=
  { t with counts := Function.update t.counts thread (some n) }

/-- The indicator and the safety timeout that message `id` creates. -/
def begin (t : Tracker) (thread : ThreadId) (id : ℕ) : Tracker :=
  { t with
    tasks := Function.update t.tasks thread (some id)
    timeouts := Function.update t.timeouts thread (some id) }

/-- `note_user_message`, in which nothing suspends. -/
def noteUserMessage (t : Tracker) (thread : ThreadId) (id : ℕ) : Tracker :=
  let t := t.setCount thread (t.pending thread + 1)
  if t.isRunning thread then t else t.begin thread id

/-- The three `pop` of `_stop`. -/
def pop (t : Tracker) (thread : ThreadId) : Tracker where
  counts := Function.update t.counts thread none
  tasks := Function.update t.tasks thread none
  timeouts := Function.update t.timeouts thread none

end Tracker

/-! ## Tasks -/

/-- What `_stop` is waiting for: the cancelled timeout `id`, and then the end of the indicator if
there was one, or the latter. -/
inductive Stopping where
  | timeout (id : ℕ) (task : Bool)
  | indicator
  deriving DecidableEq

/-- The task of `_safety_timeout`. -/
inductive SafetyPhase where
  | created
  | sleeping (wake : Time)
  | cancelled
  | stopping (s : Stopping)
  | done
  deriving DecidableEq

structure Safety where
  thread : ThreadId
  phase : SafetyPhase

/-- What `wait_for_turn` is suspended in: the lookup, the end of the database session after the
turn has been seen, the sleep. -/
inductive Watching where
  | lookup
  | closing (ended : Bool)
  | sleeping (wake : Time)
  deriving DecidableEq

/-- The handler of a message, and the watcher that it becomes. -/
inductive Phase where
  | enqueuing
  | accepted
  | queued
  | watching (deadline : Time) (w : Watching)
  | stopping (s : Stopping)
  deriving DecidableEq

/-- Before `note_bot_message` is called for the message. -/
def Phase.isCounted : Phase → Bool
  | .stopping _ => false
  | _ => true

inductive TurnState where
  | enqueuing
  | accepted (row : Option TurnStatus)
  | rejected
  deriving DecidableEq

/-- `turn is None or turn.status in {…}`. -/
def rowOver : Option TurnStatus → Bool
  | none => true
  | some status => status.isSettled

/-- When the tracker was told of a message, which indicator it was counted for, and how many safety
timeouts the thread had had. -/
structure Origin where
  thread : ThreadId
  startedAt : Time
  indicator : ℕ
  safetiesBefore : ℕ

structure Turn extends Origin where
  state : TurnState

def Turn.isUnfinished (turn : Turn) : Bool :=
  match turn.state with
  | .enqueuing => true
  | .accepted row => !rowOver row
  | .rejected => false

/-- What the tasks share; `safetyStops` counts the safety timeouts of a thread. -/
structure World where
  now : Time
  tracker : Tracker
  safeties : ℕ → Option Safety
  turns : ℕ → Option Turn
  safetyStops : ThreadId → ℕ

/-- `asyncio.timeout(360)` of `wait_for_turn`. -/
def watchLimit : ℕ := 360000

/-- `asyncio.sleep(2)` between two lookups. -/
def pollInterval : ℕ := 2000

/-- `max_duration`; both constructor calls of the bot leave it at its default. -/
structure Limits where
  maxDuration : ℕ
  max_le : maxDuration ≤ watchLimit

def Limits.default : Limits := ⟨360000, Nat.le_refl _⟩

/-! ## The methods of the tracker -/

namespace World

def setSafety (w : World) (id : ℕ) (phase : SafetyPhase) : World :=
  let task := (w.safeties id).map fun s ↦ { s with phase := phase }
  { w with safeties := Function.update w.safeties id task }

def safetyDone (w : World) (id : ℕ) : Bool := (w.safeties id).all fun s ↦ s.phase = .done

def setTurn (w : World) (pid : ℕ) (turn : Turn) : World :=
  { w with turns := Function.update w.turns pid (some turn) }

/-- The safety timeout is created together with the indicator. -/
def noteUserMessage (w : World) (thread : ThreadId) (id : ℕ) : World :=
  { w with
    tracker := w.tracker.noteUserMessage thread id
    safeties := if w.tracker.isRunning thread then w.safeties
      else Function.update w.safeties id (some ⟨thread, .created⟩) }

/-- `_stop`, up to where it waits; `current` is the safety timeout that calls it. -/
def stop (w : World) (thread : ThreadId) (current : Option ℕ) : World × Option Stopping :=
  let task := w.tracker.isRunning thread
  let popped := { w with tracker := w.tracker.pop thread }
  match w.tracker.timeouts thread with
  | some id =>
      if some id ≠ current ∧ w.safetyDone id = false then
        (popped.setSafety id .cancelled, some (.timeout id task))
      else (popped, if task then some .indicator else none)
  | none => (popped, if task then some .indicator else none)

def noteBotMessage (w : World) (thread : ThreadId) : World × Option Stopping :=
  let current := w.tracker.pending thread
  if current = 0 then (w, none)
  else
    let w := { w with tracker := w.tracker.setCount thread (current - 1) }
    if w.tracker.pending thread = 0 then w.stop thread none else (w, none)

/-- The `_safety_timeout` of `thread` after its sleep. -/
def safetyTimeout (w : World) (id : ℕ) (thread : ThreadId) : World :=
  if w.tracker.isRunning thread then
    let (w, waits) := w.stop thread (some id)
    { w.setSafety id ((waits.map SafetyPhase.stopping).getD .done) with
      safetyStops := Function.update w.safetyStops thread (w.safetyStops thread + 1) }
  else w.setSafety id .done

/-- The `finally` of `wait_for_turn`, and the `except` clauses of `on_message`. -/
def leave (w : World) (thread : ThreadId) : World × Option Phase :=
  ((w.noteBotMessage thread).1, (w.noteBotMessage thread).2.map .stopping)

/-- The end of one wait of `_stop`. -/
def resume (w : World) : Stopping → Option (Option Stopping)
  | .timeout id task =>
      if w.safetyDone id then some (if task then some .indicator else none) else none
  | .indicator => some none

end World

/-! ## The steps -/

inductive Env where
  | tick (d : ℕ)
  /-- The row of a turn is written or deleted. -/
  | row (pid : ℕ) (row : Option TurnStatus)
  | safetyBegins (id : ℕ)
  | safetyFires (id : ℕ)
  /-- `CancelledError` reaches the sleep of a safety timeout. -/
  | safetyEnds (id : ℕ)
  | safetyResumes (id : ℕ)
  deriving DecidableEq

/-- A turn that is over stays over. -/
def World.row (w : World) (pid : ℕ) (row : Option TurnStatus) : Option World :=
  (w.turns pid).bind fun turn ↦ match turn.state with
    | .accepted old =>
        if rowOver old = true → rowOver row = true then
          some (w.setTurn pid { turn with state := .accepted row })
        else none
    | _ => none

def envStep (limits : Limits) (w : World) : Env → Option World
  | .tick d => some { w with now := w.now + d }
  | .row pid row => w.row pid row
  | .safetyBegins id => (w.safeties id).bind fun s ↦ match s.phase with
      | .created => some (w.setSafety id (.sleeping (w.now + limits.maxDuration)))
      | _ => none
  | .safetyFires id => (w.safeties id).bind fun s ↦ match s.phase with
      | .sleeping wake => if wake ≤ w.now then some (w.safetyTimeout id s.thread) else none
      | _ => none
  | .safetyEnds id => (w.safeties id).bind fun s ↦ match s.phase with
      | .cancelled => some (w.setSafety id .done)
      | _ => none
  | .safetyResumes id => (w.safeties id).bind fun s ↦ match s.phase with
      | .stopping wait =>
          (w.resume wait).map fun next ↦ w.setSafety id ((next.map .stopping).getD .done)
      | _ => none

inductive Message where
  /-- A message in the thread, which is not yet accepted. -/
  | onMessage (thread : ThreadId)
  /-- `/send`, after its input has been accepted. -/
  | send (thread : ThreadId) (row : Option TurnStatus)
  deriving DecidableEq

def Message.thread : Message → ThreadId
  | .onMessage thread => thread
  | .send thread _ => thread

def Message.state : Message → TurnState
  | .onMessage _ => .enqueuing
  | .send _ row => .accepted row

def Message.phase : Message → Phase
  | .onMessage _ => .enqueuing
  | .send _ _ => .queued

def World.receive (w : World) (pid : ℕ) (m : Message) : World :=
  let noted := w.noteUserMessage m.thread pid
  noted.setTurn pid
    { thread := m.thread
      startedAt := w.now
      indicator := (noted.tracker.tasks m.thread).getD pid
      safetiesBefore := w.safetyStops m.thread
      state := m.state }

inductive Act where
  /-- `run_input_saga` commits, is refused, or returns. -/
  | commit
  | reject
  | returns
  /-- The watcher runs for the first time; its lookup is answered; its session is closed; its
  sleep ends. -/
  | start
  | read
  | closed
  | wake
  | timeout
  /-- The lookup raises. -/
  | fail
  | resume
  deriving DecidableEq

/-- The step calls `note_bot_message`. -/
def Phase.leaves : Phase → Act → Bool
  | .enqueuing, .reject => true
  | .watching _ (.closing ended), .closed => ended
  | .watching _ _, .timeout => true
  | .watching _ .lookup, .fail => true
  | .watching _ (.closing _), .fail => true
  | _, _ => false

/-- The state of a turn after a step of its task. -/
def Turn.after (turn : Turn) : Act → Turn
  | .commit => { turn with state := .accepted (some .queued) }
  | .reject => { turn with state := .rejected }
  | _ => turn

/-- Where a task goes on that does not call `note_bot_message`. -/
def Phase.next (w : World) (turn : Turn) : Phase → Act → Option Phase
  | .enqueuing, .commit => some .accepted
  | .accepted, .returns => some .queued
  | .queued, .start => some (.watching (w.now + watchLimit) .lookup)
  | .watching d .lookup, .read =>
      match turn.state with
      | .accepted row => some (.watching d (.closing (rowOver row)))
      | _ => none
  | .watching d (.closing false), .closed => some (.watching d (.sleeping (w.now + pollInterval)))
  | .watching d (.sleeping wake), .wake => if wake ≤ w.now then some (.watching d .lookup) else none
  | _, _ => none

/-- The time of a timeout has come. -/
def Phase.due (now : Time) : Phase → Act → Bool
  | .watching deadline _, .timeout => deadline ≤ now
  | _, _ => true

def taskStep (pid : ℕ) (w : World) (p : Phase) (a : Act) : Option (World × Option Phase) :=
  match p, a with
  | .stopping wait, .resume => (w.resume wait).map fun next ↦ (w, next.map .stopping)
  | p, a => (w.turns pid).bind fun turn ↦
      if p.leaves a then
        if p.due w.now a then some ((w.setTurn pid (turn.after a)).leave turn.thread) else none
      else (p.next w turn a).map fun q ↦ (w.setTurn pid (turn.after a), some q)

/-- A bot process with the handlers of its messages, watchers and safety timeouts. -/
def bot (limits : Limits) : Machine World Phase Env Message Act where
  env := envStep limits
  spawn pid w m := some (w.receive pid m, m.phase)
  exec := taskStep

/-- Nothing is tracked yet. -/
def Fresh (w : World) : Prop :=
  w.tracker = .empty ∧ (∀ id, w.safeties id = none) ∧ ∀ pid, w.turns pid = none

abbrev BotState := ProcessPool.State World Phase

end Discode.Typing
