import Discode.ConsumerLoops

/-!
# What ends the consumer loops

The runner's job loop and the dispatcher's loop end by their cancellation alone.  The input
loop calls `dead_letter` for a malformed payload outside of every `try` statement, so it also
ends by what that call raises, and by what `json.loads` raises beside a `ValueError`.
-/

set_option autoImplicit false

namespace Discode

namespace ConsumerLoops

open Coroutine

variable {F ε : Type}

/-! ## The loops of the job stream and of the dispatcher -/

theorem returns_sleep : Returns (failing F ε) (fun _ ↦ True) (ask .sleep : Consumer F ε Unit) :=
  returns_await fun _ _ _ h ↦ h.1

theorem returns_runnerMessage (maxDeliveries : ℕ) (localAttempts : Attempts) (message : ℕ × F) :
    Returns (failing F ε) (fun _ ↦ True)
      (runnerMessage maxDeliveries localAttempts message : Consumer F ε Attempts) := by
  refine (returns_attempt _).bind fun r _ ↦ ?_
  cases r with
  | ok localAttempts => exact returns_pure trivial
  | error e => exact returns_pure trivial

theorem returns_runnerBody (maxDeliveries : ℕ) (localAttempts : Attempts) :
    Returns (failing F ε) (fun _ ↦ True)
      (runnerBody maxDeliveries localAttempts : Consumer F ε (Attempts ⊕ Empty)) := by
  refine (returns_attempt _).bind fun r _ ↦ ?_
  cases r with
  | ok messages =>
      refine (returns_forEach (P := fun _ ↦ True) (fun message _ s ↦ ?_) (by simp) _).bind
        fun _ _ ↦ returns_pure trivial
      exact returns_runnerMessage maxDeliveries s message
  | error e => exact returns_sleep.bind fun _ _ ↦ returns_pure trivial

theorem returns_dispatcherMessage (maxDeliveries : ℕ) (s : Unit) (message : ℕ × F) :
    Returns (failing F ε) (fun _ ↦ True)
      (dispatcherMessage maxDeliveries s message : Consumer F ε Unit) := by
  refine (returns_attempt _).bind fun r _ ↦ ?_
  cases r with
  | ok u => exact returns_pure trivial
  | error e => exact returns_pure trivial

theorem returns_dispatcherBody (maxDeliveries : ℕ) (s : Unit) :
    Returns (failing F ε) (fun _ ↦ True)
      (dispatcherBody maxDeliveries s : Consumer F ε (Unit ⊕ Empty)) := by
  refine (returns_attempt _).bind fun r _ ↦ ?_
  cases r with
  | ok messages =>
      refine (returns_forEach (P := fun _ ↦ True) (fun message _ s ↦ ?_) (by simp) _).bind
        fun _ _ ↦ returns_pure trivial
      exact returns_dispatcherMessage maxDeliveries s message
  | error e => exact returns_sleep.bind fun _ _ ↦ returns_pure trivial

/-! ## The input loop -/

/-- `json.loads` and the lookup raise nothing but what the loop catches. -/
def InputConfig.Loads (c : InputConfig F ε) (fields : F) : Prop :=
  ∀ e, c.sessionId fields ≠ .raises e

/-- `dead_letter` succeeds, and every payload read can be looked into. -/
def InputConfig.Meets (c : InputConfig F ε) : (call : Call F) → Outcome ε call.Result → Prop
  | .claimPending, o | .readNew _, o => ∀ messages : List (ℕ × F), o = .returns messages →
      ∀ message ∈ messages, c.Loads message.2
  | .deadLetter _ _ _ _, o => ¬ o.IsRaised
  | _, _ => True

def InputConfig.meeting (c : InputConfig F ε) : Environment (Call F) Call.Result ε Bool :=
  (failing F ε).restrict c.Meets

variable (c : InputConfig F ε)

theorem InputConfig.queueCapacity_pos : 0 < c.queueCapacity := by
  have hpos := c.concurrency_pos
  unfold queueCapacity
  omega

theorem not_isRaised_of_exists {α : Type} {o : Outcome ε α} (h : ∃ a, o = .returns a) :
    ¬ o.IsRaised := by
  obtain ⟨a, rfl⟩ := h
  exact id

theorem returns_ask (call : Call F)
    (h : ∀ stop o, Answers stop call o → c.Meets call o → ¬ o.IsRaised) :
    Returns c.meeting (fun _ ↦ True) (ask call : Consumer F ε call.Result) :=
  returns_await fun stop o _ ha ↦ h stop o ha.1.1 ha.2

/-- The state of the interpreter is there to be read. -/
theorem returns_query (call : Call F)
    (h : ∀ stop o, Answers stop call o → ∃ a, o = .returns (ε := ε) a) :
    Returns c.meeting (fun _ ↦ True) (ask call : Consumer F ε call.Result) :=
  returns_ask c call fun stop o ha _ ↦ not_isRaised_of_exists (h stop o ha)

theorem ensures_readMessages (count : ℕ) (stop : Bool) :
    (readMessages count : Consumer F ε (List (ℕ × F))).Ensures c.meeting (fun _ _ _ _ ↦ True) stop
      fun o _ ↦ ∀ messages, o = .returns messages → ∀ message ∈ messages, c.Loads message.2 := by
  apply ensures_bind
  intro w₁ o w₂ _ ha
  refine ⟨trivial, ?_⟩
  cases o with
  | returns messages =>
      show Ensures _ _ (if messages.isEmpty then _ else _) _ _
      split
      · intro w₃ o' w₄ _ ha'
        exact ⟨trivial, ha'.2⟩
      · intro messages' heq
        cases heq
        exact ha.2 messages rfl
  | raises e =>
      intro messages heq
      cases heq
  | cancelled =>
      intro messages heq
      cases heq

/-- The loop waits for some task only while some task is active. -/
theorem returns_awaitCapacity {capacity : ℕ} (hpos : 0 < capacity) (active : List ℕ) :
    Returns c.meeting (fun _ ↦ True) (awaitCapacity capacity active : Consumer F ε (List ℕ)) := by
  induction hn : active.length using Nat.strongRecOn generalizing active with
  | _ n ih =>
      subst hn
      rw [awaitCapacity]
      split
      · rename_i hfull
        intro w w₁ o w₂ _ ha
        refine ⟨trivial, ?_⟩
        cases o with
        | returns done => exact ih _ (length_remaining_lt done.2.1 done.2.2) _ rfl w₂
        | raises e =>
            have hempty : active = [] := ha.1.1.mp trivial
            rw [hempty, List.length_nil] at hfull
            omega
        | cancelled => trivial
      · exact returns_pure trivial

theorem returns_inputMessage {message : ℕ × F} (hloads : c.Loads message.2) (s : Admitted) :
    Returns c.meeting (fun _ ↦ True) (inputMessage c s message) := by
  refine (returns_query c .inflight fun _ _ h ↦ h).bind fun inflight _ ↦ ?_
  by_cases hmem : List.contains inflight message.1
  · rw [if_pos hmem]
    exact returns_pure trivial
  rw [if_neg hmem]
  refine (returns_awaitCapacity c c.queueCapacity_pos s.active).bind fun active _ ↦ ?_
  cases hparsed : c.sessionId message.2 with
  | raises e => exact absurd hparsed (hloads e)
  | invalid =>
      exact (returns_ask c (.deadLetter _ _ _ _) fun _ _ _ h ↦ h).bind fun _ _ ↦ returns_pure trivial
  | session sid =>
      exact (returns_query c (.createTask _ _ _) fun _ _ h ↦ h).bind
        fun _ _ ↦ returns_pure trivial

theorem returns_inputMessages {messages : List (ℕ × F)}
    (hloads : ∀ message ∈ messages, c.Loads message.2) (s : Admitted) :
    Returns c.meeting (fun _ ↦ True) (inputMessages c s messages) := by
  refine (returns_query c .inflight fun _ _ h ↦ h).bind fun inflight _ ↦ ?_
  have hall : Returns c.meeting (fun _ ↦ True) (forEach (inputMessage c) s messages) :=
    returns_forEach (P := fun message ↦ c.Loads message.2)
      (fun message hmessage s ↦ returns_inputMessage c hmessage s) hloads s
  split
  · exact (returns_ask c .sleep fun _ _ h _ ↦ h).bind fun _ _ ↦ hall
  · exact hall

theorem returns_inputRound (s : Admitted) :
    Returns c.meeting (fun r ↦ r.isLeft) (inputRound c s) := by
  refine (returns_query c .taskDone fun _ _ h ↦ h).bind fun done _ ↦ ?_
  dsimp only
  split
  · rename_i hfull
    refine (returns_ask c (.wait _) fun _ _ h _ hraised ↦ ?_).bind fun _ _ ↦ returns_pure rfl
    have hempty : (s.prune done).active = [] := h.mp hraised
    rw [hempty, List.length_nil] at hfull
    exact absurd c.queueCapacity_pos (by omega)
  · refine (returns_attempt_of fun w ↦ ensures_readMessages c _ w).bind fun r hr ↦ ?_
    cases r with
    | ok messages =>
        exact (returns_inputMessages c (hr messages rfl) _).bind fun _ _ ↦ returns_pure rfl
    | error e =>
        exact (returns_ask c .sleep fun _ _ h _ ↦ h).bind fun _ _ ↦ returns_pure rfl

theorem returns_drainInput (s : Admitted) :
    Returns c.meeting (fun _ ↦ True) (drainInput s : Consumer F ε (Admitted ⊕ Unit)) := by
  refine (returns_query c .taskDone fun _ _ h ↦ h).bind fun done _ ↦ ?_
  dsimp only
  split
  · exact returns_pure trivial
  · exact (returns_ask c (.drain _) fun _ _ h _ ↦ h).bind fun _ _ ↦ returns_pure trivial

/-- How the input loop may end: cancelled, or by `stop`. -/
def Stopped (o : Outcome ε Unit) (stop : Bool) : Prop :=
  o = .cancelled ∨ o = .returns () ∧ stop = true

theorem ensures_finish {o : Outcome ε Unit} {stop : Bool} (h : Stopped o stop) :
    ((consumeInputStream c).finish o).Ensures c.meeting (fun _ _ _ _ ↦ True) stop Stopped := by
  apply ensures_bind
  intro stop₁ o' stop₂ hi ha
  obtain ⟨⟨hanswer, rfl⟩, -⟩ := ha
  refine ⟨trivial, ?_⟩
  cases o' with
  | returns u =>
      rcases h with hcancelled | ⟨hreturned, hstop⟩
      · exact .inl hcancelled
      · exact .inr ⟨hreturned, hi hstop⟩
  | raises e => exact absurd trivial hanswer
  | cancelled => exact .inl rfl

theorem ensures_inputBody (s : Admitted) (stop : Bool) :
    (inputBody c s).Ensures c.meeting (fun _ _ _ _ ↦ True) stop
      ((consumeInputStream c).Iterated c.meeting (fun _ _ _ _ ↦ True) (fun _ _ ↦ True) Stopped) := by
  apply ensures_bind
  intro stop₁ o stop₂ _ ha
  obtain ⟨⟨hanswer, rfl⟩, -⟩ := ha
  have hread : o = .returns stop₂ := hanswer
  subst hread
  refine ⟨trivial, ?_⟩
  cases stop₂ with
  | true =>
      have hstays : (drainInput s : Consumer F ε _).Ensures c.meeting (fun _ _ _ _ ↦ True) true
          fun _ stop ↦ stop = true :=
        ensures_preserved (J := fun stop ↦ stop = true) (fun _ _ hi h ↦ hi h)
          (fun _ _ _ _ h hstop ↦ h.1.2.trans hstop) rfl
      refine ((returns_drainInput c s true).and hstays).mono fun o stop ⟨hreturned, hstop⟩ ↦ ?_
      cases o with
      | returns r =>
          cases r with
          | inl s' => trivial
          | inr u => exact ensures_finish c (.inr ⟨rfl, hstop⟩)
      | raises e => exact hreturned.elim
      | cancelled => exact ensures_finish c (.inl rfl)
  | false =>
      refine (returns_inputRound c s false).mono fun o stop hreturned ↦ ?_
      cases o with
      | returns r =>
          cases r with
          | inl s' => trivial
          | inr u => cases hreturned
      | raises e => exact hreturned.elim
      | cancelled => exact ensures_finish c (.inl rfl)

/-! ## The three loops -/

/-- A loop whose body raises nothing ends by its cancellation. -/
theorem eq_cancelled_of_ends {σ : Type} {body : σ → Consumer F ε (σ ⊕ Empty)} {s₀ : σ}
    {o : Outcome ε Empty} {stop stop' : Bool}
    (hbody : ∀ s, Returns (failing F ε) (fun _ ↦ True) (body s))
    (h : Service.Ends ⟨body, .ends⟩ (failing F ε) s₀ stop o stop') : o = .cancelled := by
  refine Service.Ends.ensured (G := fun _ _ _ _ ↦ True) (I := fun _ _ ↦ True)
    (Q := fun o _ ↦ o = .cancelled) (fun s w _ ↦ (hbody s w).mono fun o w' ho ↦ ?_) trivial h
  cases o with
  | returns r =>
      cases r with
      | inl s' => trivial
      | inr e => exact e.elim
  | raises e => exact ho.elim
  | cancelled => exact rfl

theorem consumer_loops_survive (maxDeliveries : ℕ) :
    (∀ (o : Outcome ε Empty) (stop : Bool), (consumeRunnerStream F ε maxDeliveries).Ends
      (failing F ε) (fun _ ↦ none) false o stop → o = .cancelled) ∧
    (∀ (o : Outcome ε Empty) (stop : Bool), (consumeDispatcherStream F ε maxDeliveries).Ends
      (failing F ε) () false o stop → o = .cancelled) ∧
    ∀ (o : Outcome ε Unit) (stop : Bool), (consumeInputStream c).Ends
      c.meeting .none false o stop → o = .cancelled ∨ o = .returns () ∧ stop = true := by
  refine ⟨fun o stop h ↦ ?_, fun o stop h ↦ ?_, fun o stop h ↦ ?_⟩
  · exact eq_cancelled_of_ends (returns_runnerBody maxDeliveries) h
  · exact eq_cancelled_of_ends (returns_dispatcherBody maxDeliveries) h
  · exact Service.Ends.ensured (fun s stop _ ↦ ensures_inputBody c s stop) trivial h

/-- An input loop for payloads that name their session, but for the one that is not JSON. -/
def payloads : InputConfig String String where
  sessionId := fun payload ↦ if payload = "\x7bnot json" then .invalid else .session payload
  concurrency := 8
  concurrency_pos := by decide

theorem consumer_loops_survive_cancelled :
    (∃ (o : Outcome String Empty) (stop : Bool), (consumeRunnerStream String String 5).Ends
      (failing String String) (fun _ ↦ none) false o stop ∧ o = .cancelled) ∧
    ∃ (o : Outcome String Unit) (stop : Bool),
      (consumeInputStream payloads).Ends payloads.meeting .none false o stop ∧
      (o = .cancelled ∨ o = .returns () ∧ stop = true) := by
  constructor
  · have hclaim := (Service.Reaches.start :
      (consumeRunnerStream String String 5).Reaches (failing String String) (fun _ ↦ none) false
        _ _).next
      .claimPending .cancelled rfl id ⟨trivial, rfl⟩
    exact ⟨_, _, hclaim.ended, (consumer_loops_survive payloads 5).1 _ _ hclaim.ended⟩
  · have hstop := (Service.Reaches.start :
      (consumeInputStream payloads).Reaches payloads.meeting .none false _ _).next
      .stopIsSet (.returns true) rfl (fun _ ↦ rfl) ⟨⟨rfl, rfl⟩, trivial⟩
    have htasks := hstop.next .taskDone (.returns fun _ ↦ false) rfl id ⟨⟨⟨_, rfl⟩, rfl⟩, trivial⟩
    have hgather := htasks.ended.nextLast .gather (.returns ()) rfl id ⟨⟨id, rfl⟩, trivial⟩
    exact ⟨_, _, hgather, (consumer_loops_survive payloads 5).2.2 _ _ hgather⟩

/-- `dead_letter` fails for a payload that is no JSON. -/
theorem raised_dead_letter_ends_loop : ∃ stop, (consumeInputStream payloads).Ends
    (failing String String) .none false (.raises "ConnectionError") stop := by
  have hcapacity : (awaitCapacity 64 [] : Consumer String String _) = pure [] := by
    rw [awaitCapacity]
    rfl
  have hstop := (Service.Reaches.start :
    (consumeInputStream payloads).Reaches (failing String String) .none false _ _).next
    .stopIsSet (.returns false) rfl id ⟨rfl, rfl⟩
  have htasks := hstop.next .taskDone (.returns fun _ ↦ false) rfl id ⟨⟨_, rfl⟩, rfl⟩
  have hclaim := htasks.next .claimPending (.returns [(1, "\x7bnot json")]) rfl id ⟨trivial, rfl⟩
  have hpause := hclaim.next .inflight (.returns []) rfl id ⟨⟨_, rfl⟩, rfl⟩
  have hmessage := hpause.next .inflight (.returns []) rfl id ⟨⟨_, rfl⟩, rfl⟩
  have hdead := hmessage.next (.deadLetter 1 "\x7bnot json" .invalidPayload 1)
    (.raises "ConnectionError") (by
      change ((awaitCapacity 64 [] >>= _ : Consumer String String _) >>= _) >>= _ = _
      rw [hcapacity]
      rfl) id ⟨trivial, rfl⟩
  exact ⟨false, hdead.ended.nextLast .gather (.returns ()) rfl id ⟨id, rfl⟩⟩

end ConsumerLoops

end Discode
