import Discode.Library.Coroutine
import Mathlib.Logic.Function.Basic

/-!
# The loops that consume the streams

`_consume_runner_stream`, `_consume_input_stream` and `_consume_dispatcher_stream` with every
call they wait for.  What the tasks of the input loop do is part of its environment: they end
on their own, and `process` lets no exception of a handler out.
-/

set_option autoImplicit false

namespace Discode

namespace ConsumerLoops

open Coroutine

variable {F ε : Type}

inductive Reason where
  | handlerException
  | unhandledBudgetExhausted
  | invalidPayload
  deriving DecidableEq, Repr

inductive Call (F : Type) where
  | claimPending
  | readNew (count : ℕ)
  | sleep
  /-- The handler gets the fields only; the id says which message they belong to. -/
  | handler (id : ℕ) (fields : F)
  | ack (id : ℕ)
  | deliveryCount (id : ℕ)
  | deadLetter (id : ℕ) (fields : F) (reason : Reason) (attempts : ℕ)
  /-- `DispatcherConsumer.dead_letter`, which retains the fields alone. -/
  | retain (id : ℕ) (fields : F)
  | stopIsSet
  /-- `task.done()`, for every task. -/
  | taskDone
  | inflight
  /-- `asyncio.wait` for the first of the tasks. -/
  | wait (tasks : List ℕ)
  /-- `inflight.add` and `create_task(process(..))`. -/
  | createTask (id : ℕ) (fields : F) (previous : Option ℕ)
  | drain (tasks : List ℕ)
  | gather

@[reducible]
def Call.Result : Call F → Type
  | .claimPending | .readNew _ => List (ℕ × F)
  | .handler _ _ | .stopIsSet => Bool
  | .deliveryCount _ | .createTask _ _ _ => ℕ
  | .taskDone => ℕ → Bool
  | .inflight => List ℕ
  | .wait tasks => {done : List ℕ // done ≠ [] ∧ done ⊆ tasks}
  | _ => Unit

abbrev Consumer (F ε α : Type) : Type := Coroutine (Call F) Call.Result ε α

def ask (c : Call F) : Consumer F ε c.Result := Coroutine.await c

/-- `claim_pending`, and `read_new` where nothing was claimed. -/
def readMessages (count : ℕ) : Consumer F ε (List (ℕ × F)) := do
  let messages : List (ℕ × F) ← ask .claimPending
  if messages.isEmpty then ask (.readNew count) else pure messages

/-! ## The runner's job stream -/

/-- `local_attempts`. -/
abbrev Attempts : Type := ℕ → Option ℕ

def dropPoisonMessage (id : ℕ) (fields : F) (attempts : ℕ) (reason : Reason) :
    Consumer F ε Unit :=
  ask (.deadLetter id fields reason attempts)

def countAttempts (maxDeliveries : ℕ) (localAttempts : Attempts) (id : ℕ) (fields : F)
    (reason : Reason) : Consumer F ε Attempts := do
  let serverCount ← ask (.deliveryCount id)
  let attempts := max ((localAttempts id).getD 0) serverCount
  if maxDeliveries ≤ attempts then
    dropPoisonMessage id fields attempts reason
    pure (Function.update localAttempts id none)
  else pure localAttempts

def processRunnerMessage (maxDeliveries : ℕ) (localAttempts : Attempts) (id : ℕ) (fields : F) :
    Consumer F ε Attempts := do
  match ← (attempt (ask (.handler id fields)) : Consumer F ε (Except ε Bool)) with
  | .ok true =>
      ask (.ack id)
      pure (Function.update localAttempts id none)
  | .ok false => countAttempts maxDeliveries localAttempts id fields .unhandledBudgetExhausted
  | .error _ => countAttempts maxDeliveries localAttempts id fields .handlerException

/-- One message of a batch.  Where the bookkeeping fails its entry was not yet popped. -/
def runnerMessage (maxDeliveries : ℕ) (localAttempts : Attempts) (message : ℕ × F) :
    Consumer F ε Attempts := do
  let counted := Function.update localAttempts message.1
    (some ((localAttempts message.1).getD 0 + 1))
  match ← attempt (processRunnerMessage maxDeliveries counted message.1 message.2) with
  | .ok localAttempts => pure localAttempts
  | .error _ => pure counted

def runnerBody (maxDeliveries : ℕ) (localAttempts : Attempts) :
    Consumer F ε (Attempts ⊕ Empty) := do
  match ← attempt (readMessages 10) with
  | .error _ =>
      ask .sleep
      pure (.inl localAttempts)
  | .ok messages =>
      let localAttempts ← forEach (runnerMessage maxDeliveries) localAttempts messages
      pure (.inl localAttempts)

def consumeRunnerStream (F ε : Type) (maxDeliveries : ℕ) :
    Service (Call F) Call.Result ε Attempts Empty where
  body := runnerBody maxDeliveries
  finish := .ends

/-! ## The dispatcher's stream -/

def retainExhausted (maxDeliveries : ℕ) (id : ℕ) (fields : F) : Consumer F ε Unit := do
  let count ← ask (.deliveryCount id)
  if maxDeliveries ≤ count then ask (.retain id fields) else pure ()

def processDispatcherMessage (maxDeliveries : ℕ) (id : ℕ) (fields : F) : Consumer F ε Unit := do
  match ← (attempt (ask (.handler id fields)) : Consumer F ε (Except ε Bool)) with
  | .ok true => ask (.ack id)
  | .ok false => retainExhausted maxDeliveries id fields
  | .error _ => retainExhausted maxDeliveries id fields

def dispatcherMessage (maxDeliveries : ℕ) (_ : Unit) (message : ℕ × F) : Consumer F ε Unit := do
  match ← attempt (processDispatcherMessage maxDeliveries message.1 message.2) with
  | .ok () => pure ()
  | .error _ => pure ()

def dispatcherBody (maxDeliveries : ℕ) (_ : Unit) : Consumer F ε (Unit ⊕ Empty) := do
  match ← attempt (readMessages 10) with
  | .error _ =>
      ask .sleep
      pure (.inl ())
  | .ok messages =>
      forEach (dispatcherMessage maxDeliveries) () messages
      pure (.inl ())

def consumeDispatcherStream (F ε : Type) (maxDeliveries : ℕ) :
    Service (Call F) Call.Result ε Unit Empty where
  body := dispatcherBody maxDeliveries
  finish := .ends

/-! ## The runner's input stream -/

/-- `str(json.loads(fields.get("payload", "{}"))["session_id"])`. -/
inductive Parsed (ε : Type) where
  | session (id : String)
  /-- `ValueError`, `KeyError` or `TypeError`. -/
  | invalid
  | raises (e : ε)

/-- The arguments of the input loop; the runner leaves the concurrency at 8. -/
structure InputConfig (F ε : Type) where
  sessionId : F → Parsed ε
  concurrency : ℕ
  concurrency_pos : 0 < concurrency

def InputConfig.queueCapacity (c : InputConfig F ε) : ℕ := c.concurrency * 8

structure Admitted where
  active : List ℕ
  tails : String → Option ℕ

def Admitted.none : Admitted := ⟨[], fun _ ↦ Option.none⟩

/-- Leaves out what is done. -/
def Admitted.prune (s : Admitted) (done : ℕ → Bool) : Admitted where
  active := s.active.filter fun task ↦ !done task
  tails := fun sid ↦ (s.tails sid).filter fun task ↦ !done task

def remaining (active done : List ℕ) : List ℕ := active.filter (· ∉ done)

theorem length_remaining_lt {active done : List ℕ} (hne : done ≠ []) (hsub : done ⊆ active) :
    (remaining active done).length < active.length := by
  obtain ⟨task, hmem⟩ := List.exists_mem_of_ne_nil done hne
  exact List.length_filter_lt_length_iff_exists.mpr ⟨task, hsub hmem, by simpa using hmem⟩

/-- `while len(active) >= queue_capacity`. -/
def awaitCapacity (capacity : ℕ) (active : List ℕ) : Consumer F ε (List ℕ) :=
  if capacity ≤ active.length then
    .call (.wait active) fun
      | .returns done =>
          have := length_remaining_lt done.2.1 done.2.2
          awaitCapacity capacity (remaining active done.1)
      | .raises e => raise e
      | .cancelled => .ends .cancelled
  else pure active
termination_by active.length

def inputMessage (c : InputConfig F ε) (s : Admitted) (message : ℕ × F) :
    Consumer F ε Admitted := do
  let inflight : List ℕ ← ask .inflight
  if inflight.contains message.1 then pure s
  else
    let active ← awaitCapacity c.queueCapacity s.active
    match c.sessionId message.2 with
    | .raises e => raise e
    | .invalid =>
        dropPoisonMessage message.1 message.2 1 .invalidPayload
        pure { s with active := active }
    | .session sid =>
        let task ← ask (.createTask message.1 message.2 (s.tails sid))
        pure ⟨active ++ [task], Function.update s.tails sid (some task)⟩

/-- The messages of one read, after a pause where all of them are in progress. -/
def inputMessages (c : InputConfig F ε) (s : Admitted) (messages : List (ℕ × F)) :
    Consumer F ε Admitted := do
  let inflight : List ℕ ← ask .inflight
  if !messages.isEmpty && messages.all fun message ↦ inflight.contains message.1 then
    ask .sleep
  forEach (inputMessage c) s messages

def inputRound (c : InputConfig F ε) (s : Admitted) : Consumer F ε (Admitted ⊕ Unit) := do
  let s := s.prune (← ask .taskDone)
  if c.queueCapacity ≤ s.active.length then
    let _ ← ask (.wait s.active)
    pure (.inl s)
  else
    match ← attempt (readMessages (c.queueCapacity - s.active.length)) with
    | .error _ =>
        ask .sleep
        pure (.inl s)
    | .ok messages =>
        let s ← inputMessages c s messages
        pure (.inl s)

def drainInput (s : Admitted) : Consumer F ε (Admitted ⊕ Unit) := do
  let s := s.prune (← ask .taskDone)
  if s.active.isEmpty then pure (.inr ())
  else
    ask (.drain s.active)
    pure (.inr ())

def inputBody (c : InputConfig F ε) (s : Admitted) : Consumer F ε (Admitted ⊕ Unit) := do
  if ← ask .stopIsSet then drainInput s else inputRound c s

/-- The tasks left are cancelled and waited for, whatever ends the loop. -/
def consumeInputStream (c : InputConfig F ε) : Service (Call F) Call.Result ε Admitted Unit where
  body := inputBody c
  finish := fun o ↦ do
    ask .gather
    .ends o

/-! ## What may become of a call -/

/-- The calls of a consumer and of a handler may do anything; `stop` stays set; what the
interpreter provides raises nothing, except that there is no waiting for no task at all. -/
def Answers (stop : Bool) : (c : Call F) → Outcome ε c.Result → Prop
  | .stopIsSet, o => o = .returns stop
  | .taskDone, o | .inflight, o | .createTask _ _ _, o => ∃ a, o = .returns a
  | .wait tasks, o => o.IsRaised ↔ tasks = []
  | .sleep, o | .drain _, o | .gather, o => ¬ o.IsRaised
  | _, _ => True

def failing (F ε : Type) : Environment (Call F) Call.Result ε Bool where
  answers := fun stop c o stop' ↦ Answers stop c o ∧ stop' = stop
  interferes := fun stop stop' ↦ stop → stop'

end ConsumerLoops

end Discode
