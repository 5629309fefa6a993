import Discode.ConsumerLoops
import Discode.Relay
import Discode.Library.ServicePool

/-!
# The stream of outbound messages

Dispatchers consume `discord:outbound`, while relays add to it, `trim_acknowledged` trims it and
`recover_dispatcher` moves dead letters back into it.  The history never changes what anybody does.
-/

set_option autoImplicit false

namespace Discode

namespace Outbound

open Coroutine
open ConsumerLoops (Call)

variable {F ε : Type}

inductive Event (F : Type) where
  | added (id : ℕ) (fields : F)
  /-- The entry was read, or claimed, by some dispatcher. -/
  | delivered (id : ℕ)
  /-- The handler of these fields returned, or raised where the result is `none`. -/
  | handled (id : ℕ) (fields : F) (result : Option Bool)
  | replayed (id id' : ℕ)
  deriving DecidableEq

def Event.isDelivery (id : ℕ) : Event F → Bool
  | .delivered id' => id' = id
  | _ => false

structure Redis (F : Type) where
  stream : ConsumerStream Unit ℕ F
  /-- `times_delivered` of the pending entries. -/
  timesDelivered : ℕ → ℕ
  /-- The hash `discode:deadletter:discord`. -/
  deadLetters : ℕ → Option F
  /-- The calls of `trim_acknowledged`. -/
  trims : List TrimStage
  log : List (Event F)

namespace Redis

variable (w : Redis F)

def pending : List ℕ := (w.stream.groups ()).pending

/-- How often the entry was delivered. -/
def deliveries (id : ℕ) : ℕ := w.log.countP (Event.isDelivery id)

/-- `XAUTOCLAIM`, with the entries it has looked at. -/
def claim (scanned : List ℕ) : Redis F :=
  let messages := w.stream.entries.filter fun e ↦ e.1 ∈ scanned
  { w with
    stream := w.stream.claim () scanned
    timesDelivered := fun id ↦
      w.timesDelivered id + if messages.any (fun e ↦ e.1 = id) then 1 else 0
    log := messages.map (fun e ↦ .delivered e.1) ++ w.log }

/-- `XREADGROUP`. -/
def readNew (count : ℕ) : Redis F :=
  let messages := (w.stream.unread ()).take count
  { w with
    stream := w.stream.readNew () count
    timesDelivered := fun id ↦
      if messages.any (fun e ↦ e.1 = id) then 1 else w.timesDelivered id
    log := messages.map (fun e ↦ .delivered e.1) ++ w.log }

def ack (id : ℕ) : Redis F := { w with stream := w.stream.ack () id }

/-- `DispatcherConsumer.dead_letter`. -/
def deadLetter (id : ℕ) (fields : F) : Redis F :=
  { w with
    stream := w.stream.ack () id
    deadLetters := Function.update w.deadLetters id (some fields) }

/-- `XADD`. -/
def add (id : ℕ) (h : w.stream.lastId < id) (fields : F) : Redis F :=
  { w with stream := w.stream.add id h fields, log := .added id fields :: w.log }

/-- `XPENDING` of one entry. -/
def deliveryCount (id : ℕ) : ℕ := if id ∈ w.pending then w.timesDelivered id else 0

end Redis

/-! ## The dispatchers -/

/-- The calls that send a command to Redis and let its errors out. -/
def isCommand : Call F → Bool
  | .claimPending | .readNew _ | .ack _ | .retain _ _ => true
  | _ => false

/-- What may become of a call.  A command that raises, or that is cancelled, may have had its
effect; `delivery_count` lets no exception out. -/
inductive Answers (w : Redis F) : (c : Call F) → Fate ε c.Result → Redis F → Prop
  | claimed (scanned : List ℕ) (h : scanned ⊆ w.pending) :
      Answers w .claimPending (.returns (w.stream.entries.filter fun e ↦ e.1 ∈ scanned))
        (w.claim scanned)
  | read (count n : ℕ) (h : n ≤ count) :
      Answers w (.readNew count) (.returns ((w.stream.unread ()).take n)) (w.readNew n)
  | handled (id : ℕ) (fields : F) (b : Bool) :
      Answers w (.handler id fields) (.returns b)
        { w with log := .handled id fields (some b) :: w.log }
  | raised (id : ℕ) (fields : F) (e : ε) :
      Answers w (.handler id fields) (.raises e) { w with log := .handled id fields none :: w.log }
  | handlerCancelled (id : ℕ) (fields : F) :
      Answers w (.handler id fields) .cancelled { w with log := .handled id fields none :: w.log }
  | counted (id : ℕ) : Answers w (.deliveryCount id) (.returns (w.deliveryCount id)) w
  | countFails (id : ℕ) : Answers w (.deliveryCount id) (.returns 0) w
  | acked (id : ℕ) : Answers w (.ack id) (.returns ()) (w.ack id)
  | retained (id : ℕ) (fields : F) :
      Answers w (.retain id fields) (.returns ()) (w.deadLetter id fields)
  | slept : Answers w .sleep (.returns ()) w
  | fails (c : Call F) (e : ε) (hc : isCommand c = true) : Answers w c (.raises e) w
  | lost (c : Call F) (e : ε) (hc : isCommand c = true) (o : Fate ε c.Result) (w' : Redis F)
      (h : Answers w c o w') : Answers w c (.raises e) w'
  | unsent (c : Call F) (hc : ∀ id fields, c ≠ .handler id fields) : Answers w c .cancelled w
  | cancelled (c : Call F) (hc : isCommand c = true) (o : Fate ε c.Result) (w' : Redis F)
      (h : Answers w c o w') : Answers w c .cancelled w'

/-! ## The others -/

/-- The next command of a call of `trim_acknowledged`. -/
def trimStep (s : ConsumerStream Unit ℕ F) :
    TrimStage → TrimAction → Option (ConsumerStream Unit ℕ F × Option TrimStage)
  | .start, .readGroup retentionFloor =>
      some (s, some (.groupRead (min retentionFloor (s.groups ()).lastDelivered)))
  | .groupRead floor, .readPending =>
      some (s, some (.pendingRead ((s.groups ()).pending.min?.elim floor (min floor))))
  | .pendingRead floor, .trim => some (if floor = 0 then s else s.trim floor, none)
  | _, _ => none

/-- The calls of the system take these steps. -/
theorem trimCall_step (w : World) (p : TrimCall) (a : TrimAction) :
    p.step w a = (trimStep (w.streams p.stream) p.stage a).map fun r ↦
      (w.setStream p.stream r.1, r.2.map fun stage ↦ { p with stage }) := by
  obtain ⟨key, stage⟩ := p
  have hsame : w.setStream key (w.streams key) = w := by
    simp only [World.setStream, Function.update_eq_self]
  cases stage with
  | start =>
      cases a with
      | readGroup retentionFloor => simp [TrimCall.step, trimStep, hsame]
      | readPending | trim => rfl
  | groupRead floor =>
      cases a with
      | readPending => simp [TrimCall.step, trimStep, hsame]
      | readGroup retentionFloor => rfl
      | trim => rfl
  | pendingRead floor =>
      cases a with
      | trim =>
          simp only [TrimCall.step, trimStep, Option.map_some, Option.map_none]
          split <;> simp [hsame]
      | readGroup retentionFloor => rfl
      | readPending => rfl

/-- What the other clients of the stream do. -/
inductive Others (w : Redis F) : Redis F → Prop where
  | relayed (id : ℕ) (h : w.stream.lastId < id) (fields : F) : Others w (w.add id h fields)
  | trimStarts : Others w { w with trims := .start :: w.trims }
  | trims (before after : List TrimStage) (stage : TrimStage) (a : TrimAction)
      (s : ConsumerStream Unit ℕ F) (next : Option TrimStage)
      (h : w.trims = before ++ stage :: after) (hs : trimStep w.stream stage a = some (s, next)) :
      Others w { w with stream := s, trims := before ++ next.toList ++ after }
  /-- The script of `recover_dispatcher`. -/
  | replayed (id id' : ℕ) (h : w.stream.lastId < id') (fields : F)
      (hfields : w.deadLetters id = some fields) :
      Others w { w.add id' h fields with
        deadLetters := Function.update w.deadLetters id none
        log := .replayed id id' :: .added id' fields :: w.log }

end Outbound

end Discode
