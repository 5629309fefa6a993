import Discode.ConsumerLoops
import Discode.Library.ConsumerStream
import Mathlib.Data.List.Count

/-!
# The delivery budget of the runner's job stream

One consumer of a stream, among others, and what becomes of each message it is delivered.
The history holds what this consumer did and never changes what it does.
-/

set_option autoImplicit false

namespace Discode

namespace ConsumerLoops

open Coroutine

variable {F ε : Type}

/-- A record of `discode:deadletter:<stream>`. -/
structure DeadLetter (F : Type) where
  fields : F
  reason : Reason
  attempts : ℕ

inductive Event where
  /-- The handler returned, or raised where the result is `none`. -/
  | handled (id : ℕ) (result : Option Bool)
  | counted (id : ℕ) (serverCount : ℕ)
  | acked (id : ℕ)
  | deadLettered (id : ℕ)
  deriving DecidableEq, Repr

namespace Event

def id : Event → ℕ
  | handled id _ => id
  | counted id _ => id
  | acked id => id
  | deadLettered id => id

def isHandled : Event → Bool
  | handled _ _ => true
  | _ => false

def serverCount : Event → Option ℕ
  | counted _ n => some n
  | _ => none

def isFinal : Event → Bool
  | acked _ => true
  | deadLettered _ => true
  | _ => false

end Event

/-! ## What is counted for one message -/

/-- The events of one message, the newest first. -/
def own (id : ℕ) (log : List Event) : List Event := log.filter fun e ↦ e.id = id

def invocations (events : List Event) : ℕ := events.countP Event.isHandled

/-- What `XPENDING` said last. -/
def serverCount (events : List Event) : ℕ := (events.findSome? Event.serverCount).getD 0

def attempts (events : List Event) : ℕ := max (invocations events) (serverCount events)

/-- The message was acknowledged or retained. -/
def Finished (events : List Event) : Prop := ∃ e ∈ events, e.isFinal

@[simp] theorem own_cons (id : ℕ) (e : Event) (log : List Event) :
    own id (e :: log) = if e.id = id then e :: own id log else own id log := by
  simp [own, List.filter_cons]

@[simp] theorem invocations_cons (e : Event) (events : List Event) :
    invocations (e :: events) = invocations events + if e.isHandled then 1 else 0 := by
  simp [invocations, List.countP_cons]

@[simp] theorem finished_cons (e : Event) (events : List Event) :
    Finished (e :: events) ↔ e.isFinal ∨ Finished events := by
  simp [Finished]

theorem serverCount_cons (e : Event) (events : List Event) :
    serverCount (e :: events) = e.serverCount.getD (serverCount events) := by
  simp only [serverCount, List.findSome?_cons]
  cases e.serverCount with
  | none => rfl
  | some n => rfl

/-! ## Redis -/

structure Redis (F : Type) where
  stream : ConsumerStream Unit ℕ F
  deadLetters : ℕ → Option (DeadLetter F)
  log : List Event

namespace Redis

variable (w : Redis F)

def pending : List ℕ := (w.stream.groups ()).pending

def lastDelivered : ℕ := (w.stream.groups ()).lastDelivered

def emit (e : Event) : Redis F := { w with log := e :: w.log }

end Redis

/-- What may become of a call.  `ack` and `dead_letter` succeed, `delivery_count` may return
anything; a call that is cancelled may have had its effect. -/
inductive Redis.Answers (w : Redis F) : (c : Call F) → Outcome ε c.Result → Redis F → Prop
  | claimed (scanned : List ℕ) (h : scanned ⊆ w.pending) :
      Answers w .claimPending (.returns (w.stream.entries.filter fun e ↦ e.1 ∈ scanned))
        { w with stream := w.stream.claim () scanned }
  | read (count n : ℕ) (h : n ≤ count) :
      Answers w (.readNew count) (.returns ((w.stream.unread ()).take n))
        { w with stream := w.stream.readNew () n }
  | claimFails (e : ε) : Answers w .claimPending (.raises e) w
  | readFails (count : ℕ) (e : ε) : Answers w (.readNew count) (.raises e) w
  | claimLost (scanned : List ℕ) (h : scanned ⊆ w.pending) (e : ε) :
      Answers w .claimPending (.raises e) { w with stream := w.stream.claim () scanned }
  | readLost (count n : ℕ) (h : n ≤ count) (e : ε) :
      Answers w (.readNew count) (.raises e) { w with stream := w.stream.readNew () n }
  | handled (id : ℕ) (fields : F) (b : Bool) :
      Answers w (.handler id fields) (.returns b) (w.emit (.handled id (some b)))
  | raised (id : ℕ) (fields : F) (e : ε) :
      Answers w (.handler id fields) (.raises e) (w.emit (.handled id none))
  | counted (id n : ℕ) :
      Answers w (.deliveryCount id) (.returns n) (w.emit (.counted id n))
  | acked (id : ℕ) : Answers w (.ack id) (.returns ())
      ({ w with stream := w.stream.ack () id }.emit (.acked id))
  | deadLettered (id : ℕ) (fields : F) (reason : Reason) (attempts : ℕ) :
      Answers w (.deadLetter id fields reason attempts) (.returns ())
        ({ w with
          stream := w.stream.ack () id
          deadLetters := Function.update w.deadLetters id (some ⟨fields, reason, attempts⟩) }.emit
            (.deadLettered id))
  | slept : Answers w .sleep (.returns ()) w
  | handlerCancelled (id : ℕ) (fields : F) :
      Answers w (.handler id fields) .cancelled (w.emit (.handled id none))
  | unsent (c : Call F) (h : ∀ id fields, c ≠ .handler id fields) :
      Answers w c .cancelled w
  | cancelled (w' : Redis F) (c : Call F) (o : Outcome ε c.Result)
      (hc : ∀ id fields, c ≠ .handler id fields) (h : Answers w c o w') :
      Answers w c .cancelled w'

/-- What the other clients of the stream leave alone: an id keeps its entry while it is
pending, nothing is delivered twice as new, and nobody else writes this history. -/
structure Redis.Others (w w' : Redis F) : Prop where
  grows : w.stream.Grows w'.stream
  held : w.stream.Held () → w'.stream.Held ()
  log : w'.log = w.log

def shared (F ε : Type) : Environment (Call F) Call.Result ε (Redis F) where
  answers := Redis.Answers
  interferes := Redis.Others

/-! ## What a call does, answered or not -/

def Redis.Effect (w w' : Redis F) : Call F → Prop
  | .claimPending => ∃ scanned, w' = { w with stream := w.stream.claim () scanned }
  | .readNew _ => ∃ n, w' = { w with stream := w.stream.readNew () n }
  | .handler id _ => ∃ result, w' = w.emit (.handled id result)
  | .deliveryCount id => ∃ n, w' = w.emit (.counted id n)
  | .ack id => w' = { w with stream := w.stream.ack () id }.emit (.acked id)
  | .deadLetter id fields reason attempts => w' = { w with
      stream := w.stream.ack () id
      deadLetters := Function.update w.deadLetters id (some ⟨fields, reason, attempts⟩) }.emit
        (.deadLettered id)
  | _ => False

theorem Redis.Answers.effect {w w' : Redis F} {c : Call F} {o : Outcome ε c.Result}
    (h : Redis.Answers w c o w') : (w' = w ∧ ∀ id fields, c ≠ .handler id fields) ∨
      w.Effect w' c := by
  induction h with
  | claimed scanned h => exact .inr ⟨scanned, rfl⟩
  | read count n h => exact .inr ⟨n, rfl⟩
  | claimFails e => exact .inl ⟨rfl, fun _ _ ↦ by simp⟩
  | readFails count e => exact .inl ⟨rfl, fun _ _ ↦ by simp⟩
  | claimLost scanned h e => exact .inr ⟨scanned, rfl⟩
  | readLost count n h e => exact .inr ⟨n, rfl⟩
  | handled id fields b => exact .inr ⟨some b, rfl⟩
  | raised id fields e => exact .inr ⟨none, rfl⟩
  | counted id n => exact .inr ⟨n, rfl⟩
  | acked id => exact .inr rfl
  | deadLettered id fields reason attempts => exact .inr rfl
  | slept => exact .inl ⟨rfl, fun _ _ ↦ by simp⟩
  | unsent c h => exact .inl ⟨rfl, h⟩
  | handlerCancelled id fields => exact .inr ⟨none, rfl⟩
  | cancelled w' c o hc h ih => exact ih

/-! ## The invariant -/

/-- What the loop knows of one message, from the events of that message alone. -/
structure Tracked (maxDeliveries : ℕ) (count : Option ℕ) (w : Redis F) (id : ℕ) : Prop where
  finished : Finished (own id w.log) → id ≤ w.lastDelivered ∧ id ∉ w.pending
  unfinished : ¬ Finished (own id w.log) → count.getD 0 = invocations (own id w.log) ∧
    attempts (own id w.log) < maxDeliveries
  bound : invocations (own id w.log) ≤ maxDeliveries

structure Bookkept (maxDeliveries : ℕ) (localAttempts : Attempts) (w : Redis F) : Prop where
  held : w.stream.Held ()
  tracked : ∀ id, Tracked maxDeliveries (localAttempts id) w id

/-- A message of the batch that is still to be handled. -/
structure Fresh (w : Redis F) (message : ℕ × F) : Prop where
  unfinished : ¬ Finished (own message.1 w.log)
  delivered : message.1 ≤ w.lastDelivered
  fields : ∀ f, (message.1, f) ∈ w.stream.entries → f = message.2

/-- Only message `id` was worked on. -/
structure WorksOn (id : ℕ) (w w' : Redis F) : Prop where
  grows : w.stream.Grows w'.stream
  own : ∀ other, other ≠ id → own other w'.log = own other w.log

theorem WorksOn.trans {id : ℕ} {w w' w'' : Redis F} (h : WorksOn id w w') (h' : WorksOn id w' w'') :
    WorksOn id w w'' :=
  ⟨h.grows.trans h'.grows, fun other hne ↦ (h'.own other hne).trans (h.own other hne)⟩

theorem Redis.Others.worksOn {w w' : Redis F} (h : w.Others w') (id : ℕ) : WorksOn id w w' :=
  ⟨h.grows, fun _ _ ↦ by rw [h.log]⟩

theorem worksOn_emit {w : Redis F} {stream : ConsumerStream Unit ℕ F}
    (deadLetters : ℕ → Option (DeadLetter F)) (hgrows : w.stream.Grows stream) (e : Event) :
    WorksOn e.id w ⟨stream, deadLetters, e :: w.log⟩ := by
  refine ⟨hgrows, fun other hne ↦ ?_⟩
  rw [own_cons, if_neg hne.symm]

/-- What is over stays over. -/
theorem Tracked.grows {maxDeliveries id : ℕ} {count : Option ℕ} {w w' : Redis F}
    (h : Tracked maxDeliveries count w id) (hgrows : w.stream.Grows w'.stream)
    (hown : own id w'.log = own id w.log) : Tracked maxDeliveries count w' id := by
  refine ⟨fun hf ↦ ?_, ?_, ?_⟩
  · rw [hown] at hf
    obtain ⟨hdelivered, hpending⟩ := h.finished hf
    refine ⟨hdelivered.trans (hgrows.delivered ()), fun hnew ↦ ?_⟩
    rcases hgrows.pending () id hnew with hold | hlt
    · exact hpending hold
    · exact absurd hdelivered (not_le.mpr hlt)
  · rw [hown]
    exact h.unfinished
  · rw [hown]
    exact h.bound

theorem Fresh.grows {w w' : Redis F} {message : ℕ × F} (h : Fresh w message)
    (hgrows : w.stream.Grows w'.stream) (hown : own message.1 w'.log = own message.1 w.log) :
    Fresh w' message := by
  refine ⟨by rw [hown]; exact h.unfinished, h.delivered.trans (hgrows.delivered ()), ?_⟩
  intro f hf
  rcases hgrows.entries _ hf with hold | hnew
  · exact h.fields f hold
  · exact absurd (h.delivered.trans (w.stream.delivered ())) (not_le.mpr hnew)

theorem Bookkept.others {maxDeliveries : ℕ} {localAttempts : Attempts} {w w' : Redis F}
    (h : Bookkept maxDeliveries localAttempts w) (ho : w.Others w') :
    Bookkept maxDeliveries localAttempts w' :=
  ⟨ho.held h.held, fun id ↦ (h.tracked id).grows ho.grows (by rw [ho.log])⟩

/-! ## What the loop promises of each call -/

/-- The calls with which the loop turns to something new. -/
def Call.TurnsOn : Call F → Prop
  | .claimPending | .readNew _ | .handler _ _ => True
  | _ => False

structure Promise (maxDeliveries : ℕ) (w₁ : Redis F) (c : Call F) (o : Outcome ε c.Result)
    (w₂ : Redis F) : Prop where
  leaves : ∀ id ∈ w₁.pending, id ∉ w₂.pending → .handled id (some true) ∈ w₁.log ∨
    ∃ fields reason attempts, (id, fields) ∈ w₁.stream.entries ∧
      w₂.deadLetters id = some ⟨fields, reason, attempts⟩
  invoked : ∀ id, invocations (own id w₂.log) ≤ maxDeliveries
  budget : ∀ id fields reason n, c = .deadLetter id fields reason n →
    n = attempts (own id w₁.log) ∧ maxDeliveries ≤ n
  acked : ∀ id, c = .ack id → .handled id (some true) ∈ w₁.log
  settled : c.TurnsOn → ∀ id, ¬ Finished (own id w₁.log) →
    attempts (own id w₁.log) < maxDeliveries

/-- The handler was just called for `message`, and the loop has not yet decided on it. -/
structure InHand (maxDeliveries : ℕ) (localAttempts : Attempts) (message : ℕ × F)
    (w : Redis F) : Prop where
  held : w.stream.Held ()
  fresh : Fresh w message
  count : (localAttempts message.1).getD 0 = invocations (own message.1 w.log)
  bound : invocations (own message.1 w.log) ≤ maxDeliveries
  others : ∀ id, id ≠ message.1 → Tracked maxDeliveries (localAttempts id) w id

section Promises

variable {maxDeliveries : ℕ} {localAttempts : Attempts} {message : ℕ × F} {w w' : Redis F}

theorem InHand.others' (h : InHand maxDeliveries localAttempts message w) (ho : w.Others w') :
    InHand maxDeliveries localAttempts message w' := by
  have hown : ∀ id, own id w'.log = own id w.log := fun id ↦ by rw [ho.log]
  refine ⟨ho.held h.held, h.fresh.grows ho.grows (hown _), ?_, ?_, fun id hne ↦ ?_⟩
  · rw [hown]
    exact h.count
  · rw [hown]
    exact h.bound
  · exact (h.others id hne).grows ho.grows (hown id)

theorem InHand.invoked (h : InHand maxDeliveries localAttempts message w) (id : ℕ) :
    invocations (own id w.log) ≤ maxDeliveries := by
  by_cases hid : id = message.1
  · rw [hid]
    exact h.bound
  · exact (h.others id hid).bound

/-- A call that leaves the pending list and the invocations alone. -/
theorem promise_of_quiet {c : Call F} {o : Outcome ε c.Result}
    (hpending : w.pending ⊆ w'.pending)
    (hinvoked : ∀ id, invocations (own id w'.log) ≤ maxDeliveries)
    (hc : ∀ id fields reason n, c ≠ .deadLetter id fields reason n) (hack : ∀ id, c ≠ .ack id)
    (hsettled : c.TurnsOn → ∀ id, ¬ Finished (own id w.log) →
      attempts (own id w.log) < maxDeliveries) : Promise maxDeliveries w c o w' :=
  ⟨fun _ hid hnot ↦ absurd (hpending hid) hnot, hinvoked,
    fun id fields reason n heq ↦ absurd heq (hc id fields reason n),
    fun id heq ↦ absurd heq (hack id), hsettled⟩

theorem promise_read {c : Call F} {o : Outcome ε c.Result}
    (h : Bookkept maxDeliveries localAttempts w) (ha : Redis.Answers w c o w')
    (hc : c = .claimPending ∨ ∃ count, c = .readNew count) : Promise maxDeliveries w c o w' := by
  have hlog : w.pending ⊆ w'.pending ∧ w'.log = w.log := by
    rcases ha.effect with ⟨rfl, -⟩ | heffect
    · exact ⟨List.Subset.refl _, rfl⟩
    · rcases hc with rfl | ⟨count, rfl⟩
      · obtain ⟨scanned, rfl⟩ := heffect
        refine ⟨fun id hid ↦ ?_, rfl⟩
        rw [Redis.pending, h.held.pending_claim scanned]
        exact hid
      · obtain ⟨n, rfl⟩ := heffect
        exact ⟨fun id hid ↦ ConsumerStream.mem_pending_readNew.mpr (.inl hid), rfl⟩
  refine promise_of_quiet hlog.1 (fun id ↦ ?_) ?_ ?_ fun _ id ↦ fun hf ↦
    ((h.tracked id).unfinished hf).2
  · rw [hlog.2]
    exact (h.tracked id).bound
  · rintro id fields reason n heq
    rcases hc with rfl | ⟨count, rfl⟩ <;> cases heq
  · rintro id heq
    rcases hc with rfl | ⟨count, rfl⟩ <;> cases heq

theorem promise_handler {id : ℕ} {fields : F} {o : Outcome ε Bool}
    (h : Bookkept maxDeliveries localAttempts w) (hunfinished : ¬ Finished (own id w.log))
    (ha : Redis.Answers w (.handler id fields) o w') :
    Promise maxDeliveries w (.handler id fields) o w' := by
  obtain ⟨result, rfl⟩ : ∃ result, w' = w.emit (.handled id result) := by
    rcases ha.effect with ⟨-, hne⟩ | heffect
    · exact absurd rfl (hne id fields)
    · exact heffect
  refine promise_of_quiet (List.Subset.refl _) (fun other ↦ ?_) (fun _ _ _ _ heq ↦ nomatch heq)
    (fun _ heq ↦ nomatch heq) fun _ other hf ↦ ((h.tracked other).unfinished hf).2
  by_cases hother : id = other
  · subst hother
    have hlt : invocations (own id w.log) < maxDeliveries :=
      (le_max_left _ _).trans_lt ((h.tracked id).unfinished hunfinished).2
    simp only [Redis.emit, own_cons, Event.id, if_pos, invocations_cons, Event.isHandled]
    omega
  · simp only [Redis.emit, own_cons, Event.id, hother, if_false]
    exact (h.tracked other).bound

theorem promise_counted {id : ℕ} {o : Outcome ε ℕ}
    (h : InHand maxDeliveries localAttempts message w)
    (ha : Redis.Answers w (.deliveryCount id) o w') :
    Promise maxDeliveries w (.deliveryCount id) o w' := by
  have hlog : w.pending ⊆ w'.pending ∧ ∀ other, invocations (own other w'.log) =
      invocations (own other w.log) := by
    rcases ha.effect with ⟨rfl, -⟩ | ⟨n, rfl⟩
    · exact ⟨List.Subset.refl _, fun _ ↦ rfl⟩
    · refine ⟨List.Subset.refl _, fun other ↦ ?_⟩
      by_cases hother : id = other
      · simp [Redis.emit, Event.id, hother, Event.isHandled]
      · simp [Redis.emit, Event.id, hother]
  refine promise_of_quiet hlog.1 (fun other ↦ ?_) (fun _ _ _ _ heq ↦ nomatch heq)
    (fun _ heq ↦ nomatch heq) fun ht ↦ ht.elim
  rw [hlog.2]
  exact h.invoked other

/-- An event that is no invocation. -/
theorem invocations_emit {id : ℕ} {e : Event} (he : e.isHandled = false) (log : List Event) :
    invocations (own id (e :: log)) = invocations (own id log) := by
  by_cases hid : e.id = id
  · simp [hid, he]
  · simp [hid]

theorem promise_acked {o : Outcome ε Unit} (h : InHand maxDeliveries localAttempts message w)
    (hhandled : .handled message.1 (some true) ∈ w.log)
    (ha : Redis.Answers w (.ack message.1) o w') :
    Promise maxDeliveries w (.ack message.1) o w' := by
  have hacked : ∀ id, Call.ack (F := F) message.1 = .ack id → .handled id (some true) ∈ w.log := by
    rintro _ ⟨⟩
    exact hhandled
  rcases ha.effect with ⟨rfl, -⟩ | heffect
  · exact ⟨fun _ hid hnot ↦ absurd hid hnot, h.invoked, (fun _ _ _ _ heq ↦ nomatch heq), hacked,
      fun ht ↦ ht.elim⟩
  · subst heffect
    refine ⟨fun id hid hnot ↦ .inl ?_, fun id ↦ ?_, (fun _ _ _ _ heq ↦ nomatch heq), hacked,
      fun ht ↦ ht.elim⟩
    · have hid' : id = message.1 := by
        by_contra hne
        exact hnot (ConsumerStream.mem_pending_ack.mpr ⟨hid, hne⟩)
      rw [hid']
      exact hhandled
    · simp only [Redis.emit, invocations_emit (e := .acked message.1) rfl]
      exact h.invoked id

theorem promise_deadLettered {o : Outcome ε Unit} {reason : Reason} {n : ℕ}
    (h : InHand maxDeliveries localAttempts message w)
    (hn : n = attempts (own message.1 w.log)) (hle : maxDeliveries ≤ n)
    (ha : Redis.Answers w (.deadLetter message.1 message.2 reason n) o w') :
    Promise maxDeliveries w (.deadLetter message.1 message.2 reason n) o w' := by
  have hbudget : ∀ id fields reason' n', Call.deadLetter message.1 message.2 reason n =
      .deadLetter id fields reason' n' →
      n' = attempts (own id w.log) ∧ maxDeliveries ≤ n' := by
    rintro _ _ _ _ ⟨⟩
    exact ⟨hn, hle⟩
  rcases ha.effect with ⟨rfl, -⟩ | heffect
  · exact ⟨fun _ hid hnot ↦ absurd hid hnot, h.invoked, hbudget, (fun _ heq ↦ nomatch heq),
      fun ht ↦ ht.elim⟩
  · subst heffect
    refine ⟨fun id hid hnot ↦ .inr ?_, fun id ↦ ?_, hbudget,
      (fun _ heq ↦ nomatch heq), fun ht ↦ ht.elim⟩
    · have hid' : id = message.1 := by
        by_contra hne
        exact hnot (ConsumerStream.mem_pending_ack.mpr ⟨hid, hne⟩)
      subst hid'
      -- The entry of a pending message is the one it was delivered with.
      obtain ⟨-, f, hf⟩ := h.held message.1 hid
      have heq : f = message.2 := h.fresh.fields f hf
      subst heq
      exact ⟨_, reason, n, hf, Function.update_self ..⟩
    · simp only [Redis.emit, invocations_emit (e := .deadLettered message.1) rfl]
      exact h.invoked id

end Promises

/-! ## One message -/

section Message

variable {maxDeliveries : ℕ} {localAttempts : Attempts} {message : ℕ × F} {w w' : Redis F}

theorem InHand.emit {e : Event} (h : InHand maxDeliveries localAttempts message w)
    (hid : e.id = message.1) (hhandled : e.isHandled = false) (hfinal : e.isFinal = false) :
    InHand maxDeliveries localAttempts message (w.emit e) ∧ WorksOn message.1 w (w.emit e) := by
  have hworks : WorksOn message.1 w (w.emit e) := by
    rw [← hid]
    exact worksOn_emit _ (.refl w.stream) e
  refine ⟨⟨h.held, ⟨?_, h.fresh.delivered, h.fresh.fields⟩, ?_, ?_, fun id hne ↦ ?_⟩, hworks⟩
  · simp [Redis.emit, hid, hfinal, h.fresh.unfinished]
  · rw [Redis.emit, invocations_emit hhandled]
    exact h.count
  · rw [Redis.emit, invocations_emit hhandled]
    exact h.bound
  · exact (h.others id hne).grows (.refl w.stream) (hworks.own id hne)

/-- The entry leaves the pending list, and its message is over. -/
theorem InHand.finish {e : Event} {deadLetters : ℕ → Option (DeadLetter F)}
    (h : InHand maxDeliveries localAttempts message w) (hid : e.id = message.1)
    (hhandled : e.isHandled = false) (hfinal : e.isFinal = true) :
    Bookkept maxDeliveries (Function.update localAttempts message.1 none)
      ⟨w.stream.ack () message.1, deadLetters, e :: w.log⟩ ∧
    WorksOn message.1 w ⟨w.stream.ack () message.1, deadLetters, e :: w.log⟩ := by
  have hworks : WorksOn message.1 w ⟨w.stream.ack () message.1, deadLetters, e :: w.log⟩ := by
    have := worksOn_emit deadLetters
      (ConsumerStream.grows_ack w.stream () message.1) e
    rwa [hid] at this
  refine ⟨⟨h.held.ack message.1, fun id ↦ ?_⟩, hworks⟩
  by_cases hid' : id = message.1
  · subst hid'
    rw [Function.update_self]
    refine ⟨fun _ ↦ ⟨?_, fun hpending ↦ ?_⟩, fun hnot ↦ absurd ?_ hnot, ?_⟩
    · exact h.fresh.delivered.trans ((ConsumerStream.grows_ack w.stream () message.1).delivered ())
    · exact (ConsumerStream.mem_pending_ack.mp hpending).2 rfl
    · simp [hid, hfinal]
    · rw [invocations_emit hhandled]
      exact h.bound
  · rw [Function.update_of_ne hid']
    exact (h.others id hid').grows hworks.grows (hworks.own id hid')

/-- Where the budget is not used up, the message stays as it is. -/
theorem InHand.keep (h : InHand maxDeliveries localAttempts message w)
    (hlt : attempts (own message.1 w.log) < maxDeliveries) :
    Bookkept maxDeliveries localAttempts w := by
  refine ⟨h.held, fun id ↦ ?_⟩
  by_cases hid : id = message.1
  · subst hid
    exact ⟨fun hf ↦ absurd hf h.fresh.unfinished, fun _ ↦ ⟨h.count, hlt⟩, h.bound⟩
  · exact h.others id hid

/-- What processing one message comes to. -/
def Processed (maxDeliveries : ℕ) (message : ℕ × F) (w : Redis F)
    (o : Outcome ε Attempts) (w' : Redis F) : Prop :=
  Returned (fun localAttempts ↦ Bookkept maxDeliveries localAttempts w' ∧
    WorksOn message.1 w w') o

theorem ensures_countAttempts (reason : Reason)
    (h : InHand maxDeliveries localAttempts message w) :
    (countAttempts maxDeliveries localAttempts message.1 message.2 reason).Ensures (shared F ε)
      (Promise maxDeliveries) w (Processed maxDeliveries message w) := by
  refine Ensures.bind (P := fun n w' ↦ InHand maxDeliveries localAttempts message w' ∧
    WorksOn message.1 w w' ∧ serverCount (own message.1 w'.log) = n) ?_ ?_ fun _ ↦ trivial
  · intro w₁ o w₂ hi ha
    have h₁ := h.others' hi
    refine ⟨promise_counted h₁ ha, ?_⟩
    cases ha with
    | counted id n =>
        obtain ⟨h₂, hworks⟩ := h₁.emit (e := .counted message.1 n) rfl rfl rfl
        refine ⟨h₂, (hi.worksOn message.1).trans hworks, ?_⟩
        simp [Redis.emit, Event.id, serverCount_cons, Event.serverCount]
    | unsent hne => trivial
    | cancelled w' o hc h => trivial
  · rintro n w₁ ⟨h₁, hworks, rfl⟩
    have hcount : max ((localAttempts message.1).getD 0) (serverCount (own message.1 w₁.log)) =
        attempts (own message.1 w₁.log) := by rw [h₁.count, attempts]
    simp only [hcount]
    split
    · rename_i hle
      refine Ensures.bind (P := fun _ w' ↦ Bookkept maxDeliveries
        (Function.update localAttempts message.1 none) w' ∧ WorksOn message.1 w w') ?_
        (fun _ _ hdone ↦ hdone) fun _ ↦ trivial
      intro w₂ o w₃ hi ha
      have h₂ := h₁.others' hi
      refine ⟨promise_deadLettered h₂ (by rw [hi.log]) hle ha, ?_⟩
      cases ha with
      | deadLettered =>
          obtain ⟨hbook, hworks'⟩ := h₂.finish (e := .deadLettered message.1) rfl rfl rfl
          exact ⟨hbook, (hworks.trans (hi.worksOn message.1)).trans hworks'⟩
      | unsent hne => trivial
      | cancelled w' o hc h => trivial
    · rename_i hlt
      exact ⟨h₁.keep (not_le.mp hlt), hworks⟩

/-- The handler is called once more, within the budget. -/
theorem Bookkept.invoke (h : Bookkept maxDeliveries localAttempts w) (hfresh : Fresh w message)
    (result : Option Bool) :
    InHand maxDeliveries (Function.update localAttempts message.1
      (some ((localAttempts message.1).getD 0 + 1))) message (w.emit (.handled message.1 result)) ∧
    WorksOn message.1 w (w.emit (.handled message.1 result)) := by
  have hworks : WorksOn message.1 w (w.emit (.handled message.1 result)) :=
    worksOn_emit _ (.refl w.stream) (.handled message.1 result)
  have hinvoked : invocations (own message.1 (w.emit (.handled message.1 result)).log) =
      invocations (own message.1 w.log) + 1 := by
    simp [Redis.emit, Event.id, Event.isHandled]
  obtain ⟨hcount, hlt⟩ := (h.tracked message.1).unfinished hfresh.unfinished
  refine ⟨⟨h.held, ⟨?_, hfresh.delivered, hfresh.fields⟩, ?_, ?_, fun id hne ↦ ?_⟩, hworks⟩
  · simp [Redis.emit, Event.id, Event.isFinal, hfresh.unfinished]
  · rw [Function.update_self, hinvoked, hcount, Option.getD_some]
  · rw [hinvoked]
    exact (le_max_left _ _).trans_lt hlt
  · rw [Function.update_of_ne hne]
    exact (h.tracked id).grows (.refl w.stream) (hworks.own id hne)

theorem ensures_processRunnerMessage (h : Bookkept maxDeliveries localAttempts w)
    (hfresh : Fresh w message) :
    (processRunnerMessage maxDeliveries (Function.update localAttempts message.1
      (some ((localAttempts message.1).getD 0 + 1))) message.1 message.2).Ensures (shared F ε)
      (Promise maxDeliveries) w (Processed maxDeliveries message w) := by
  generalize hcounted : Function.update localAttempts message.1
    (some ((localAttempts message.1).getD 0 + 1)) = counted
  refine Ensures.bind (P := fun r w' ↦ InHand maxDeliveries counted message w' ∧
    WorksOn message.1 w w' ∧ (r = .ok true → .handled message.1 (some true) ∈ w'.log)) ?_ ?_
    fun _ ↦ trivial
  · apply ensures_attempt
    intro w₁ o w₂ hi ha
    have h₁ := h.others hi
    have hfresh₁ : Fresh w₁ message := hfresh.grows hi.grows (by rw [hi.log])
    refine ⟨promise_handler h₁ hfresh₁.unfinished ha, ?_⟩
    have hhand : ∀ result, InHand maxDeliveries counted message
        (w₁.emit (.handled message.1 result)) ∧
        WorksOn message.1 w (w₁.emit (.handled message.1 result)) :=
      fun result ↦ (hcounted ▸ h₁.invoke hfresh₁ result).imp_right (hi.worksOn message.1).trans
    cases ha with
    | handled id fields b =>
        obtain ⟨hin, hworks⟩ := hhand (some b)
        refine ⟨hin, hworks, fun heq ↦ ?_⟩
        cases heq
        exact List.mem_cons_self
    | raised id fields e =>
        obtain ⟨hin, hworks⟩ := hhand none
        exact ⟨hin, hworks, fun heq ↦ nomatch heq⟩
    | handlerCancelled id fields => trivial
    | unsent hne => trivial
    | cancelled w' o hc h => trivial
  · rintro r w₁ ⟨h₁, hworks, htrue⟩
    have hcount : ∀ reason, (countAttempts maxDeliveries counted message.1 message.2
        reason).Ensures (shared F ε) (Promise maxDeliveries) w₁
        (Processed maxDeliveries message w) := by
      intro reason
      refine (ensures_countAttempts reason h₁).mono fun o w' ho ↦ ?_
      cases o with
      | returns localAttempts' => exact ⟨ho.1, hworks.trans ho.2⟩
      | raises e => exact ho.elim
      | cancelled => trivial
    match r with
    | .ok false => exact hcount _
    | .error e => exact hcount _
    | .ok true =>
        refine Ensures.bind (P := fun _ w' ↦ Bookkept maxDeliveries
          (Function.update counted message.1 none) w' ∧ WorksOn message.1 w w') ?_
          (fun _ _ hdone ↦ hdone) fun _ ↦ trivial
        intro w₂ o w₃ hi ha
        have h₂ := h₁.others' hi
        refine ⟨promise_acked h₂ (hi.log ▸ htrue rfl) ha, ?_⟩
        cases ha with
        | acked =>
            obtain ⟨hbook, hworks'⟩ := h₂.finish (e := .acked message.1) rfl rfl rfl
            exact ⟨hbook, (hworks.trans (hi.worksOn message.1)).trans hworks'⟩
        | unsent hne => trivial
        | cancelled w' o hc h => trivial

end Message

/-! ## The loop -/

section Loop

variable {maxDeliveries : ℕ} {localAttempts : Attempts} {w w' : Redis F}

theorem ensures_runnerMessage {message : ℕ × F} (h : Bookkept maxDeliveries localAttempts w)
    (hfresh : Fresh w message) :
    (runnerMessage maxDeliveries localAttempts message).Ensures (shared F ε)
      (Promise maxDeliveries) w (Processed maxDeliveries message w) := by
  refine Ensures.bind (P := fun r w' ↦ ∃ localAttempts', r = .ok localAttempts' ∧
    Bookkept maxDeliveries localAttempts' w' ∧ WorksOn message.1 w w') ?_ ?_ fun _ ↦ trivial
  · apply ensures_attempt
    refine (ensures_processRunnerMessage h hfresh).mono fun o w' ho ↦ ?_
    cases o with
    | returns localAttempts' => exact ⟨localAttempts', rfl, ho⟩
    | raises e => exact ho.elim
    | cancelled => trivial
  · rintro r w' ⟨localAttempts', rfl, hdone⟩
    exact hdone

/-- The messages of a batch, of which none is over and none comes twice. -/
structure Batch (messages : List (ℕ × F)) (w : Redis F) : Prop where
  fresh : ∀ message ∈ messages, Fresh w message
  distinct : messages.Pairwise fun a b ↦ a.1 ≠ b.1

theorem Batch.tail {message : ℕ × F} {messages : List (ℕ × F)}
    (h : Batch (message :: messages) w) (hw : WorksOn message.1 w w') : Batch messages w' := by
  obtain ⟨hne, hdistinct⟩ := List.pairwise_cons.mp h.distinct
  refine ⟨fun other hother ↦ ?_, hdistinct⟩
  exact (h.fresh other (List.mem_cons_of_mem _ hother)).grows hw.grows
    (hw.own other.1 (hne other hother).symm)

theorem ensures_messages {messages : List (ℕ × F)} (h : Bookkept maxDeliveries localAttempts w)
    (hbatch : Batch messages w) :
    (forEach (runnerMessage maxDeliveries) localAttempts messages).Ensures (shared F ε)
      (Promise maxDeliveries) w
      fun o w' ↦ Returned (fun localAttempts ↦ Bookkept maxDeliveries localAttempts w') o := by
  refine ensures_forEach (I := fun messages localAttempts w ↦
    Bookkept maxDeliveries localAttempts w ∧ Batch messages w) ?_ (fun _ _ h ↦ h.1) ⟨h, hbatch⟩
  rintro message messages localAttempts w' ⟨h, hbatch⟩
  refine (ensures_runnerMessage h (hbatch.fresh message List.mem_cons_self)).mono fun o w'' ho ↦ ?_
  cases o with
  | returns localAttempts' => exact ⟨ho.1, hbatch.tail ho.2⟩
  | raises e => exact ho.elim
  | cancelled => trivial

/-- What was claimed is pending, so nothing of it is over. -/
theorem Bookkept.claim (h : Bookkept maxDeliveries localAttempts w) {scanned : List ℕ}
    (hscanned : scanned ⊆ w.pending) :
    Bookkept maxDeliveries localAttempts { w with stream := w.stream.claim () scanned } ∧
    Batch (w.stream.entries.filter fun e ↦ e.1 ∈ scanned)
      { w with stream := w.stream.claim () scanned } := by
  have hgrows := ConsumerStream.grows_claim w.stream () scanned
  refine ⟨⟨h.held.claim scanned, fun id ↦ (h.tracked id).grows hgrows rfl⟩, fun e he ↦ ?_, ?_⟩
  · obtain ⟨hentry, hmem⟩ := List.mem_filter.mp he
    have hpending : e.1 ∈ w.pending := hscanned (of_decide_eq_true hmem)
    refine ⟨fun hf ↦ ((h.tracked e.1).finished hf).2 hpending, ?_, fun f hf ↦ ?_⟩
    · exact (h.held e.1 hpending).1.trans (hgrows.delivered ())
    · exact ConsumerStream.eq_of_mem (s := w.stream) hf hentry
  · exact (w.stream.sorted.sublist List.filter_sublist).imp fun hlt ↦ hlt.ne

/-- What is read is new, so nothing of it is over. -/
theorem Bookkept.read (h : Bookkept maxDeliveries localAttempts w) (n : ℕ) :
    Bookkept maxDeliveries localAttempts { w with stream := w.stream.readNew () n } ∧
    Batch ((w.stream.unread ()).take n) { w with stream := w.stream.readNew () n } := by
  have hgrows := ConsumerStream.grows_readNew w.stream () n
  refine ⟨⟨h.held.readNew n, fun id ↦ (h.tracked id).grows hgrows rfl⟩, fun e he ↦ ?_, ?_⟩
  · obtain ⟨hentry, hnew⟩ := ConsumerStream.mem_unread.mp (List.mem_of_mem_take he)
    refine ⟨fun hf ↦ ?_, ConsumerStream.le_lastDelivered_readNew he, fun f hf ↦ ?_⟩
    · exact absurd ((h.tracked e.1).finished hf).1 (not_le.mpr hnew)
    · exact ConsumerStream.eq_of_mem (s := w.stream) hf hentry
  · exact ((w.stream.sorted.sublist List.filter_sublist).sublist
      (List.take_sublist _ _)).imp fun hlt ↦ hlt.ne

/-- A read that fails may have been carried out. -/
theorem Bookkept.failed (h : Bookkept maxDeliveries localAttempts w) {c : Call F}
    (hc : c = .claimPending ∨ ∃ count, c = .readNew count) {o : Outcome ε c.Result}
    (ha : Redis.Answers w c o w') : Bookkept maxDeliveries localAttempts w' := by
  rcases ha.effect with ⟨rfl, -⟩ | heffect
  · exact h
  · rcases hc with rfl | ⟨count, rfl⟩
    · obtain ⟨scanned, rfl⟩ := heffect
      exact ⟨h.held.claim scanned, fun id ↦
        (h.tracked id).grows (ConsumerStream.grows_claim w.stream () scanned) rfl⟩
    · obtain ⟨n, rfl⟩ := heffect
      exact (h.read n).1

/-- What the reads come to, also where they fail. -/
def Received (maxDeliveries : ℕ) (localAttempts : Attempts) (o : Outcome ε (List (ℕ × F)))
    (w : Redis F) : Prop :=
  Bookkept maxDeliveries localAttempts w ∧ ∀ messages, o = .returns messages → Batch messages w

theorem ensures_readMessages_shared (count : ℕ) (h : Bookkept maxDeliveries localAttempts w) :
    (readMessages count).Ensures (shared F ε) (Promise maxDeliveries) w
      (Received maxDeliveries localAttempts) := by
  apply ensures_bind
  intro w₁ o w₂ hi ha
  have h₁ := h.others hi
  refine ⟨promise_read h₁ ha (.inl rfl), ?_⟩
  have hfailed := h₁.failed (.inl rfl) ha
  cases ha with
  | claimed scanned hscanned =>
      show Ensures _ _ (if List.isEmpty _ then _ else _) _ _
      split
      · intro w₃ o' w₄ hi' ha'
        have h₃ := hfailed.others hi'
        refine ⟨promise_read h₃ ha' (.inr ⟨count, rfl⟩), h₃.failed (.inr ⟨count, rfl⟩) ha', ?_⟩
        rintro messages rfl
        cases ha' with
        | read count n hn => exact (h₃.read n).2
      · refine ⟨hfailed, fun messages heq ↦ ?_⟩
        cases heq
        exact (h₁.claim hscanned).2
  | claimFails e => exact ⟨hfailed, fun _ heq ↦ nomatch heq⟩
  | claimLost scanned hscanned e => exact ⟨hfailed, fun _ heq ↦ nomatch heq⟩
  | unsent hne => exact ⟨hfailed, fun _ heq ↦ nomatch heq⟩
  | cancelled w' o hc h => exact ⟨hfailed, fun _ heq ↦ nomatch heq⟩

theorem ensures_runnerBody (h : Bookkept maxDeliveries localAttempts w) :
    (runnerBody maxDeliveries localAttempts).Ensures (shared F ε) (Promise maxDeliveries) w
      ((consumeRunnerStream F ε maxDeliveries).Iterated (shared F ε) (Promise maxDeliveries)
        (Bookkept maxDeliveries) fun _ _ ↦ True) := by
  refine Ensures.bind (P := fun r w' ↦ Bookkept maxDeliveries localAttempts w' ∧
    ∀ messages, r = .ok messages → Batch messages w') ?_ ?_ fun _ ↦ trivial
  · apply ensures_attempt
    refine (ensures_readMessages_shared 10 h).mono fun o w' ho ↦ ?_
    cases o with
    | returns messages =>
        refine ⟨ho.1, fun messages' heq ↦ ?_⟩
        cases heq
        exact ho.2 messages rfl
    | raises e => exact ⟨ho.1, fun _ heq ↦ nomatch heq⟩
    | cancelled => trivial
  · rintro r w' ⟨h', hbatch⟩
    cases r with
    | ok messages =>
        refine Ensures.bind (ensures_messages h' (hbatch messages rfl)) ?_ fun _ ↦ trivial
        intro localAttempts' w'' h''
        exact h''
    | error e =>
        refine Ensures.bind (P := fun _ w'' ↦ Bookkept maxDeliveries localAttempts w'') ?_
          (fun _ w'' h'' ↦ h'') fun _ ↦ trivial
        intro w₁ o w₂ hi ha
        have h₁ := h'.others hi
        have hsame : w₂ = w₁ := by
          rcases ha.effect with ⟨hsame, -⟩ | heffect
          · exact hsame
          · exact heffect.elim
        subst hsame
        refine ⟨promise_of_quiet (List.Subset.refl _) (fun id ↦ (h₁.tracked id).bound)
          (fun _ _ _ _ heq ↦ nomatch heq) (fun _ heq ↦ nomatch heq) fun ht ↦ ht.elim, ?_⟩
        cases ha with
        | slept => exact h₁
        | unsent hne => trivial
        | cancelled w' o hc h => trivial

/-- Nothing was done yet. -/
theorem bookkept_start (hpos : 0 < maxDeliveries) (hlog : w.log = []) (hheld : w.stream.Held ()) :
    Bookkept maxDeliveries (fun _ ↦ none) w := by
  refine ⟨hheld, fun id ↦ ?_⟩
  have hown : own id w.log = [] := by
    rw [hlog]
    rfl
  refine ⟨fun hf ↦ ?_, fun _ ↦ ?_, ?_⟩
  · rw [hown] at hf
    obtain ⟨e, he, -⟩ := hf
    cases he
  · rw [hown]
    exact ⟨rfl, hpos⟩
  · rw [hown]
    exact Nat.zero_le _

end Loop

theorem runner_stream_bookkeeping {maxDeliveries : ℕ} (hpos : 0 < maxDeliveries) {w₀ : Redis F}
    (hlog : w₀.log = []) (hheld : w₀.stream.Held ()) {w₁ w₂ : Redis F} {c : Call F}
    {o : Outcome ε c.Result} (h : (consumeRunnerStream F ε maxDeliveries).Calls (shared F ε)
      (fun _ ↦ none) w₀ w₁ c o w₂) : Promise maxDeliveries w₁ c o w₂ :=
  h.promised (I := Bookkept maxDeliveries) (Q := fun _ _ ↦ True)
    (fun _ _ hbook ↦ ensures_runnerBody hbook) (bookkept_start hpos hlog hheld)

/-- A stream with one job. -/
def oneJob : Redis String where
  stream := (ConsumerStream.init 0).add 1 Nat.one_pos "job"
  deadLetters := fun _ ↦ none
  log := []

theorem runner_stream_bookkeeping_raised : ∃ w₁ w₂ : Redis String,
    (consumeRunnerStream String String 1).Calls (shared String String) (fun _ ↦ none) oneJob w₁
      (.deadLetter 1 "job" .handlerException 1) (.returns ()) w₂ ∧
    Promise 1 w₁ (.deadLetter 1 "job" .handlerException 1) (.returns () : Outcome String Unit) w₂ := by
  have hothers : ∀ w : Redis String, w.Others w := fun w ↦ ⟨.refl _, id, rfl⟩
  have hclaim := (Service.Reaches.start :
    (consumeRunnerStream String String 1).Reaches (shared String String) (fun _ ↦ none) oneJob
      _ _).next
    .claimPending (.returns []) rfl (hothers _) (.claimed [] (List.nil_subset _))
  have hread := hclaim.next (.readNew 10) (.returns [(1, "job")]) rfl (hothers _)
    (.read 10 1 (by decide))
  have hraised := hread.next (.handler 1 "job") (.raises "boom") rfl (hothers _) (.raised 1 "job" _)
  have hcounted := hraised.next (.deliveryCount 1) (.returns 0) rfl (hothers _) (.counted 1 0)
  have hcalls : (consumeRunnerStream String String 1).Calls (shared String String) (fun _ ↦ none)
      oneJob _ (.deadLetter 1 "job" .handlerException 1) (.returns ()) _ :=
    ⟨_, hothers _, .deadLettered 1 "job" .handlerException 1, .inl ⟨_, hcounted⟩⟩
  refine ⟨_, _, hcalls, runner_stream_bookkeeping Nat.one_pos rfl (fun id hid ↦ ?_) hcalls⟩
  cases hid

end ConsumerLoops

end Discode
