import Discode.InputScheduler
import Discode.RunnerBudget

/-!
# Messages whose handling always raises

The job stream gives up such a message within its delivery budget.  The input stream has no
budget: it gives up a payload that names no session, and retries any other for ever.
-/

set_option autoImplicit false

namespace Discode

namespace PoisonMessages

/-! ## The job stream -/

section Jobs

open ConsumerLoops

variable {F ε : Type} {maxDeliveries id : ℕ}

/-- The handler returns nothing on any delivery of the message. -/
def Raises (id : ℕ) : (c : Call F) → Outcome ε c.Result → Prop
  | .handler id' _, o => id' = id → ∀ b : Bool, o ≠ .returns b
  | _, _ => True

/-- The message is handled within the budget, and retained by the time the loop turns to
anything else after that. -/
def JobBounded (F ε : Type) (maxDeliveries id : ℕ) : Prop :=
  ∀ (w₀ w₁ w₂ : Redis F) (c : Call F) (o : Outcome ε c.Result), w₀.log = [] → w₀.stream.Held () →
    (consumeRunnerStream F ε maxDeliveries).Calls ((shared F ε).restrict (Raises id))
      (fun _ ↦ none) w₀ w₁ c o w₂ →
    invocations (own id w₂.log) ≤ maxDeliveries ∧
    (c.TurnsOn → maxDeliveries ≤ invocations (own id w₁.log) → .deadLettered id ∈ w₁.log)

/-- Nothing but a dead letter gets the message off the stream. -/
structure Unhandled (id : ℕ) (w : Redis F) : Prop where
  handled : ∀ b, .handled id (some b) ∉ w.log
  acked : .acked id ∉ w.log

theorem Unhandled.emit {w w' : Redis F} {e : Event} (h : Unhandled id w) (hlog : w'.log = e :: w.log)
    (hhandled : ∀ b, e ≠ .handled id (some b)) (hacked : e ≠ .acked id) : Unhandled id w' := by
  refine ⟨fun b hmem ↦ ?_, fun hmem ↦ ?_⟩ <;> rw [hlog] at hmem
  · rcases List.mem_cons.mp hmem with heq | hold
    · exact hhandled b heq.symm
    · exact h.handled b hold
  · rcases List.mem_cons.mp hmem with heq | hold
    · exact hacked heq.symm
    · exact h.acked hold

theorem Unhandled.answered {w w' : Redis F} {c : Call F} {o : Outcome ε c.Result}
    (h : Unhandled id w) (ha : Redis.Answers w c o w') (hraises : Raises id c o)
    (hack : ∀ id', c = .ack id' → .handled id' (some true) ∈ w.log) : Unhandled id w' := by
  have hother : ∀ id', c = .ack id' → id' ≠ id := by
    rintro id' hc rfl
    exact h.handled true (hack id' hc)
  induction ha with
  | claimed scanned hscanned => exact ⟨h.handled, h.acked⟩
  | read count n hn => exact ⟨h.handled, h.acked⟩
  | claimFails e => exact h
  | readFails count e => exact h
  | claimLost scanned hscanned e => exact ⟨h.handled, h.acked⟩
  | readLost count n hn e => exact ⟨h.handled, h.acked⟩
  | handled id' fields b =>
      refine h.emit rfl (fun b' heq ↦ ?_) (fun heq ↦ nomatch heq)
      cases heq
      exact hraises rfl b rfl
  | raised id' fields e => exact h.emit rfl (fun _ heq ↦ nomatch heq) (fun heq ↦ nomatch heq)
  | counted id' n => exact h.emit rfl (fun _ heq ↦ nomatch heq) (fun heq ↦ nomatch heq)
  | acked id' =>
      refine h.emit rfl (fun _ heq ↦ nomatch heq) fun heq ↦ ?_
      cases heq
      exact hother id rfl rfl
  | deadLettered id' fields reason n =>
      exact h.emit rfl (fun _ heq ↦ nomatch heq) (fun heq ↦ nomatch heq)
  | slept => exact h
  | handlerCancelled id' fields =>
      exact h.emit rfl (fun _ heq ↦ nomatch heq) (fun heq ↦ nomatch heq)
  | unsent c hc => exact h
  | cancelled w' c o hc ha ih =>
      refine ih ?_ hack hother
      cases c with
      | handler id' fields => exact absurd rfl (hc id' fields)
      | _ => trivial

theorem jobBounded (F ε : Type) (hpos : 0 < maxDeliveries) (id : ℕ) :
    JobBounded F ε maxDeliveries id := by
  intro w₀ w₁ w₂ c o hlog hheld hcalls
  have hbody : ∀ localAttempts w, Bookkept maxDeliveries localAttempts w →
      ((consumeRunnerStream F ε maxDeliveries).body localAttempts).Ensures
        ((shared F ε).restrict (Raises id)) (Promise maxDeliveries) w
        ((consumeRunnerStream F ε maxDeliveries).Iterated ((shared F ε).restrict (Raises id))
          (Promise maxDeliveries) (Bookkept maxDeliveries) fun _ _ ↦ True) :=
    fun localAttempts w h ↦ Service.ensures_body_restrict
      (M := consumeRunnerStream F ε maxDeliveries) (ensures_runnerBody h)
  have hstart := bookkept_start hpos hlog hheld
  have hpromise := hcalls.promised hbody hstart
  have hunhandled : Unhandled id w₁ := by
    have hnil : ∀ e, e ∉ w₀.log := fun e ↦ by simp [hlog]
    refine hcalls.preserved hbody hstart (J := Unhandled id) ⟨fun b ↦ hnil _, hnil _⟩ ?_ ?_
    · intro w w' hi h
      exact ⟨fun b ↦ hi.log ▸ h.handled b, hi.log ▸ h.acked⟩
    · intro w c o w' ha hG h
      exact h.answered ha.1 ha.2 hG.acked
  refine ⟨hpromise.invoked id, fun hturns hle ↦ ?_⟩
  have hfinished : Finished (own id w₁.log) := by
    by_contra hnot
    have hlt := hpromise.settled hturns id hnot
    exact absurd (hle.trans (le_max_left _ (serverCount (own id w₁.log)))) (not_le.mpr hlt)
  obtain ⟨e, he, hfinal⟩ := hfinished
  obtain ⟨hmem, hid⟩ := List.mem_filter.mp he
  cases e with
  | handled id' r => cases hfinal
  | counted id' n => cases hfinal
  | acked id' =>
      have heq : id' = id := of_decide_eq_true hid
      exact absurd (heq ▸ hmem) hunhandled.acked
  | deadLettered id' =>
      have heq : id' = id := of_decide_eq_true hid
      exact heq ▸ hmem

end Jobs

/-! ## The input stream -/

section Inputs

open InputScheduler

variable {F : Type} {c : Config F} {s s' : State F} {id : ℕ} {fields : F}

/-- The messages of the last read that the coroutine has still to take up. -/
def toTakeUp : Main F → List (ℕ × F)
  | .repeated messages | .batch messages => messages
  | .accept message rest | .deadLettering message rest => message :: rest
  | _ => []

/-- How often the action delivers the message. -/
def deliveries (id : ℕ) : Action F → ℕ
  | .main (.claimed messages) | .main (.read messages) => messages.countP fun m ↦ m.1 = id
  | _ => 0

/-- The message always has the same fields and its handler always raises; nothing that the
consumer calls for its bookkeeping fails. -/
def Admits (id : ℕ) (fields : F) (s : State F) : Action F → Prop
  | .main (.claimed messages) | .main (.read messages) =>
      ∀ m ∈ messages, m.1 = id → m.2 = fields
  | .task i (.returns _) | .task i .cancels => ∀ t, s.tasks[i]? = some t → t.mid ≠ id
  | .task _ (.ackRaises _) => False
  | _ => True

/-- The runs in which the message is poison, with the number of its deliveries. -/
inductive PoisonRun (c : Config F) (id : ℕ) (fields : F) : ℕ → State F → Prop
  | start : PoisonRun c id fields 0 (.start c)
  | step {n : ℕ} {s s' : State F} {a : Action F} (h : PoisonRun c id fields n s)
      (ha : Admits id fields s a) (hs : step c s a = some s') :
      PoisonRun c id fields (n + deliveries id a) s'

theorem PoisonRun.to {n : ℕ} {s : State F} (h : PoisonRun c id fields n s) (a : Action F)
    (s' : State F) (ha : Admits id fields s a) (hs : InputScheduler.step c s a = some s') :
    PoisonRun c id fields (n + deliveries id a) s' :=
  h.step ha hs

/-- How often the handler was called for the message. -/
def handlings (id : ℕ) (s : State F) : ℕ :=
  s.log.countP fun
    | .started i _ => s.tasks[i]?.any fun t ↦ t.mid = id
    | _ => false

/-- The message is handled within the budget, and retained once it was delivered that often. -/
def InputBounded (c : Config F) (maxDeliveries id : ℕ) (fields : F) : Prop :=
  ∀ n s, PoisonRun c id fields n s → handlings id s ≤ maxDeliveries ∧
    (s.main = .top → maxDeliveries ≤ n → .deadLettered id fields ∈ s.log)

/-- What a step of the coroutine does to the messages it was given. -/
inductive TakesUp (c : Config F) (s s' : State F) : MainAction F → Prop
  | keeps {a : MainAction F} (ha : ∀ id, deliveries id (.main a) = 0)
      (hmessages : toTakeUp s'.main = toTakeUp s.main ∨ s'.main = .ended)
      (htasks : s'.tasks = s.tasks) (hinflight : s'.inflight = s.inflight)
      (hlog : s'.log = s.log) : TakesUp c s s' a
  | delivers {a : MainAction F} {messages : List (ℕ × F)}
      (ha : a = .claimed messages ∨ a = .read messages)
      (hmessages : toTakeUp s'.main = messages) (hbefore : toTakeUp s.main = [])
      (htasks : s'.tasks = s.tasks)
      (hinflight : s'.inflight = s.inflight) (hlog : s'.log = s.log) : TakesUp c s s' a
  | skips {m : ℕ × F} (hbefore : toTakeUp s.main = m :: toTakeUp s'.main)
      (hm : m.1 ∈ s.inflight) (htasks : s'.tasks = s.tasks) (hinflight : s'.inflight = s.inflight)
      (hlog : s'.log = s.log) : TakesUp c s s' .next
  | admits {m : ℕ × F} {rest : List (ℕ × F)} {session : SessionId}
      (hbefore : toTakeUp s.main = m :: rest) (hsession : c.sessionId m.2 = some session)
      (hs : s' = s.accept m session rest) : TakesUp c s s' .next
  | retains {m : ℕ × F} (hbefore : toTakeUp s.main = m :: toTakeUp s'.main)
      (htasks : s'.tasks = s.tasks) (hinflight : s'.inflight = s.inflight)
      (hlog : s'.log = .acked m.1 :: .deadLettered m.1 m.2 :: s.log) : TakesUp c s s' .deadLettered

theorem toTakeUp_received (s : State F) (messages : List (ℕ × F)) :
    toTakeUp (s.received messages) = messages := by
  unfold State.received
  split <;> rfl

theorem takesUp_of_mainStep {a : MainAction F} (h : mainStep c s a = some s') :
    TakesUp c s s' a := by
  cases a with
  | loop =>
      simp only [mainStep] at h
      split at h
      · rename_i hmain
        split at h <;> cases h <;> refine .keeps (fun _ ↦ rfl) (.inl ?_) rfl rfl rfl <;>
          rw [hmain] <;> dsimp only <;> split <;> rfl
      · cases h
  | claimed messages =>
      simp only [mainStep] at h
      split at h <;> cases h
      rename_i hmain
      refine .delivers (.inl rfl) ?_ (by rw [hmain]; rfl) rfl rfl rfl
      cases messages with
      | nil => rfl
      | cons m rest => exact toTakeUp_received s (m :: rest)
  | read messages =>
      simp only [mainStep] at h
      split at h <;> cases h
      rename_i hmain
      exact .delivers (.inr rfl) (toTakeUp_received s messages) (by rw [hmain]; rfl) rfl rfl rfl
  | readFails =>
      simp only [mainStep] at h
      split at h <;> cases h <;> rename_i hmain <;>
        exact .keeps (fun _ ↦ rfl) (.inl (by rw [hmain]; rfl)) rfl rfl rfl
  | wake =>
      simp only [mainStep] at h
      split at h
      · rename_i hmain
        split at h <;> cases h
        exact .keeps (fun _ ↦ rfl) (.inl (by rw [hmain]; rfl)) rfl rfl rfl
      · rename_i hmain
        cases h
        exact .keeps (fun _ ↦ rfl) (.inl (by rw [hmain]; rfl)) rfl rfl rfl
      · rename_i hmain
        cases h
        exact .keeps (fun _ ↦ rfl) (.inl (by rw [hmain]; rfl)) rfl rfl rfl
      · split at h <;> cases h
        exact .keeps (fun _ ↦ rfl) (.inl rfl) rfl rfl rfl
      · cases h
  | next =>
      simp only [mainStep] at h
      split at h
      · rename_i hmain
        cases h
        exact .keeps (fun _ ↦ rfl) (.inl (by rw [hmain]; rfl)) rfl rfl rfl
      · rename_i m rest hmain
        cases h
        split
        · rename_i hm
          exact .skips (by rw [hmain]; rfl) (List.contains_iff_mem.mp hm) rfl rfl rfl
        · exact .keeps (fun _ ↦ rfl) (.inl (by rw [hmain]; rfl)) rfl rfl rfl
      · rename_i m rest hmain
        split at h
        · cases h
        · split at h <;> cases h
          · exact .keeps (fun _ ↦ rfl) (.inl (by rw [hmain]; rfl)) rfl rfl rfl
          · rename_i session hsession
            exact .admits (by rw [hmain]; rfl) hsession rfl
      · cases h
  | deadLettered =>
      simp only [mainStep] at h
      split at h <;> cases h
      rename_i m rest hmain
      exact .retains (by rw [hmain]; rfl) rfl rfl rfl
  | drained =>
      simp only [mainStep] at h
      split at h <;> cases h
      exact .keeps (fun _ ↦ rfl) (.inr rfl) rfl rfl rfl
  | leave =>
      cases h
      exact .keeps (fun _ ↦ rfl) (.inr rfl) rfl rfl rfl

/-- A message that names no session: it is never admitted, and once delivered it is retained
or about to be taken up. -/
structure Refused (id : ℕ) (fields : F) (n : ℕ) (s : State F) : Prop where
  tasks : ∀ t ∈ s.tasks, t.mid ≠ id
  inflight : id ∉ s.inflight
  messages : ∀ m ∈ toTakeUp s.main, m.1 = id → m.2 = fields
  retained : 0 < n → .deadLettered id fields ∈ s.log ∨ (id, fields) ∈ toTakeUp s.main ∨
    s.main = .ended

theorem Refused.takesUp {n : ℕ} {a : MainAction F} (h : Refused id fields n s)
    (hnone : c.sessionId fields = none) (ha : Admits id fields s (.main a))
    (ht : TakesUp c s s' a) (hlive : s.main ≠ .ended) :
    Refused id fields (n + deliveries id (.main a)) s' := by
  have hretained : 0 < n → .deadLettered id fields ∈ s.log ∨ (id, fields) ∈ toTakeUp s.main :=
    fun hn ↦ (h.retained hn).imp_right fun hor ↦ hor.resolve_right hlive
  cases ht with
  | keeps hno hmessages htasks hinflight hlog =>
      refine ⟨htasks ▸ h.tasks, hinflight ▸ h.inflight, fun m hm heq ↦ ?_, fun hn ↦ ?_⟩
      · rcases hmessages with hsame | hended
        · exact h.messages m (hsame ▸ hm) heq
        · rw [hended] at hm
          cases hm
      · rw [hno, Nat.add_zero] at hn
        rw [hlog]
        rcases hmessages with hsame | hended
        · rw [hsame]
          exact (hretained hn).imp_right .inl
        · exact .inr (.inr hended)
  | @delivers _ messages hread hmessages hbefore htasks hinflight hlog =>
      have hfields : ∀ m ∈ messages, m.1 = id → m.2 = fields := by
        rcases hread with rfl | rfl <;> exact ha
      refine ⟨htasks ▸ h.tasks, hinflight ▸ h.inflight, hmessages ▸ hfields, fun hn ↦ ?_⟩
      rw [hlog, hmessages]
      by_cases hnew : ∃ m ∈ messages, m.1 = id
      · obtain ⟨m, hm, hid⟩ := hnew
        have heq : m = (id, fields) := Prod.ext hid (hfields m hm hid)
        exact .inr (.inl (heq ▸ hm))
      · have hzero : deliveries id (.main a) = 0 := by
          rcases hread with rfl | rfl <;> exact List.countP_eq_zero.mpr fun m hm hid ↦
            hnew ⟨m, hm, of_decide_eq_true hid⟩
        rw [hzero, Nat.add_zero] at hn
        rcases hretained hn with hdone | hpending
        · exact .inl hdone
        · rw [hbefore] at hpending
          cases hpending
  | @skips m hbefore hm htasks hinflight hlog =>
      have hne : m.1 ≠ id := fun heq ↦ h.inflight (heq ▸ hm)
      refine ⟨htasks ▸ h.tasks, hinflight ▸ h.inflight, fun m' hm' ↦ ?_, fun hn ↦ ?_⟩
      · exact h.messages m' (hbefore ▸ List.mem_cons_of_mem _ hm')
      · rw [hlog]
        refine (hretained hn).imp_right fun hpending ↦ .inl ?_
        rw [hbefore] at hpending
        exact (List.mem_cons.mp hpending).resolve_left fun heq ↦ hne (heq ▸ rfl)
  | @admits m rest session hbefore hsession hs =>
      have hne : m.1 ≠ id := by
        intro heq
        have hfields := h.messages m (hbefore ▸ List.mem_cons_self) heq
        rw [hfields, hnone] at hsession
        cases hsession
      subst hs
      refine ⟨fun t ht ↦ ?_, fun hmem ↦ ?_, fun m' hm' ↦ ?_, fun hn ↦ ?_⟩
      · rcases List.mem_append.mp ht with hold | hnew
        · exact h.tasks t hold
        · rw [List.mem_singleton.mp hnew]
          exact hne
      · rcases List.mem_cons.mp hmem with heq | hold
        · exact hne heq.symm
        · exact h.inflight hold
      · exact h.messages m' (hbefore ▸ List.mem_cons_of_mem _ hm')
      · rcases hretained hn with hdone | hpending
        · exact .inl (List.mem_cons_of_mem _ hdone)
        · rw [hbefore] at hpending
          exact .inr (.inl ((List.mem_cons.mp hpending).resolve_left fun heq ↦ hne (heq ▸ rfl)))
  | @retains m hbefore htasks hinflight hlog =>
      refine ⟨htasks ▸ h.tasks, hinflight ▸ h.inflight, fun m' hm' ↦ ?_, fun hn ↦ ?_⟩
      · exact h.messages m' (hbefore ▸ List.mem_cons_of_mem _ hm')
      · rw [hlog]
        rcases hretained hn with hdone | hpending
        · exact .inl (List.mem_cons_of_mem _ (List.mem_cons_of_mem _ hdone))
        · rw [hbefore] at hpending
          rcases List.mem_cons.mp hpending with heq | hrest
          · exact .inl (heq ▸ List.mem_cons_of_mem _ List.mem_cons_self)
          · exact .inr (.inl hrest)

theorem refused_of_run (hnone : c.sessionId fields = none) {n : ℕ}
    (h : PoisonRun c id fields n s) : Refused id fields n s := by
  induction h with
  | start =>
      exact ⟨(fun _ ht ↦ nomatch ht), (fun hmem ↦ nomatch hmem), (fun _ hm ↦ nomatch hm),
        fun hn ↦ absurd hn (lt_irrefl 0)⟩
  | @step n s s' a h ha hs ih =>
      unfold step at hs
      split at hs
      · cases hs
      rename_i hlive
      have hmain : s.main ≠ .ended := fun heq ↦ hlive (by rw [heq]; rfl)
      cases a with
      | main a => exact ih.takesUp hnone ha (takesUp_of_mainStep hs) hmain
      | task i a =>
          obtain ⟨t, hget, htask⟩ := Option.bind_eq_some_iff.mp hs
          obtain ⟨t', hr, -⟩ := (taskStep_effect htask).retask hget
          have hlog := (taskStep_effect htask).mem_log (e := .deadLettered id fields)
          refine ⟨fun u hu ↦ ?_, fun hmem ↦ ih.inflight ((hr.inflight id).mp hmem).1, ?_, fun hn ↦ ?_⟩
          · rw [hr.tasks] at hu
            rcases List.mem_or_eq_of_mem_set hu with hold | rfl
            · exact ih.tasks u hold
            · rw [hr.mid]
              exact ih.tasks t (List.mem_of_getElem? hget)
          · rw [hr.main]
            exact ih.messages
          · rw [hr.main]
            exact (ih.retained hn).imp_left hlog
      | stop =>
          cases hs
          exact ⟨ih.tasks, ih.inflight, ih.messages, fun hn ↦
            (ih.retained hn).imp_left (List.mem_cons_of_mem _)⟩

theorem inputBounded_of_malformed {maxDeliveries : ℕ} (hpos : 0 < maxDeliveries)
    (hnone : c.sessionId fields = none) : InputBounded c maxDeliveries id fields := by
  intro n s hrun
  have h := refused_of_run hnone hrun
  refine ⟨?_, fun htop hle ↦ ?_⟩
  · have hzero : handlings id s = 0 := by
      refine List.countP_eq_zero.mpr fun e he hcounted ↦ ?_
      cases e with
      | started i session =>
          obtain ⟨t, ht, hid⟩ := (Option.any_eq_true _ _).mp hcounted
          exact h.tasks t (List.mem_of_getElem? ht) (of_decide_eq_true hid)
      | _ => cases hcounted
    rw [hzero]
    exact Nat.zero_le _
  · rcases h.retained (hpos.trans_le hle) with hdone | hpending | hended
    · exact hdone
    · rw [htop] at hpending
      cases hpending
    · rw [htop] at hended
      cases hended

/-! ### A payload that names a session -/

/-- Between two deliveries: every task is over. -/
structure Idle (c : Config F) (s : State F) : Prop where
  main : s.main = .top
  tasks : ∀ t ∈ s.tasks, t.isDone = true
  active : ∀ i ∈ s.active, s.done i = true
  tails : ∀ session i, s.tails session = some i → s.done i = true
  inflight : s.inflight = []
  slots : s.slots = c.concurrency
  stop : s.stop = false

/-- The state once the coroutine has looked at its tasks. -/
theorem step_loop (hconcurrency : 0 < c.concurrency) (h : Idle c s) :
    step c s (.main .loop) =
      some { s with active := [], tails := fun _ ↦ none, main := .claiming } := by
  have hactive : s.pending = [] := by
    refine List.filter_eq_nil_iff.mpr fun i hi ↦ ?_
    simp [h.active i hi]
  have htails : (fun sid ↦ (s.tails sid).filter fun i ↦ !s.done i) = fun _ ↦ none := by
    funext sid
    refine Option.filter_eq_none_iff.mpr fun i hi ↦ ?_
    simp [h.tails sid i hi]
  have hroom : ¬ c.queueCapacity ≤ ([] : List ℕ).length := by
    simp only [Config.queueCapacity, List.length_nil]
    omega
  simp only [step, mainStep, h.main, h.stop, isEnded, hactive, htails, if_neg hroom]
  simp

/-- The state once the coroutine has admitted the message as the last task. -/
def admitted (s : State F) (id : ℕ) (fields : F) (session : SessionId) : State F :=
  { s with active := [], tails := fun _ ↦ none, main := .accept (id, fields) [] }.accept
    (id, fields) session []

theorem PoisonRun.admit {n : ℕ} {session : SessionId} (hrun : PoisonRun c id fields n s)
    (hconcurrency : 0 < c.concurrency) (hsession : c.sessionId fields = some session)
    (h : Idle c s) : ∃ n', PoisonRun c id fields n' (admitted s id fields session) := by
  have hroom : ¬ c.queueCapacity ≤ ([] : List ℕ).length := by
    simp only [Config.queueCapacity, List.length_nil]
    omega
  have hloop := hrun.step (a := .main .loop) trivial (step_loop hconcurrency h)
  have hclaimed := hloop.to (.main (.claimed [(id, fields)]))
    { s with active := [], tails := fun _ ↦ none, main := .batch [(id, fields)] }
    (fun m hm _ ↦ by rw [List.mem_singleton.mp hm]) (by
      simp [InputScheduler.step, mainStep, isEnded, State.at_, State.received, h.inflight])
  have htaken := hclaimed.to (.main .next)
    { s with active := [], tails := fun _ ↦ none, main := .accept (id, fields) [] }
    trivial (by simp [InputScheduler.step, mainStep, isEnded, State.at_, h.inflight])
  have hadmitted := htaken.to (.main .next) (admitted s id fields session) trivial
    (by simp only [InputScheduler.step, mainStep, isEnded, if_neg hroom, hsession]; rfl)
  exact ⟨_, hadmitted⟩

/-- The message is delivered once more, handled, and its handler raises. -/
theorem PoisonRun.again {n : ℕ} {session : SessionId} (hrun : PoisonRun c id fields n s)
    (hconcurrency : 0 < c.concurrency) (hsession : c.sessionId fields = some session)
    (h : Idle c s) : ∃ n' s', PoisonRun c id fields n' s' ∧ Idle c s' ∧
      handlings id s + 1 ≤ handlings id s' := by
  obtain ⟨n', hadmitted⟩ := hrun.admit hconcurrency hsession h
  have hslots : s.slots ≠ 0 := by
    rw [h.slots]
    exact hconcurrency.ne'
  have hqueued := hadmitted.to (.task s.tasks.length .proceed) {
    admitted s id fields session with
      tasks := s.tasks ++ [⟨id, fields, session, none, .queued⟩] } trivial (by
    simp [InputScheduler.step, admitted, State.accept, isEnded, taskStep, State.setTask])
  have hstarted := hqueued.to (.task s.tasks.length .acquire) {
    admitted s id fields session with
      tasks := s.tasks ++ [⟨id, fields, session, none, .handling⟩]
      slots := s.slots - 1
      log := .started s.tasks.length session :: (admitted s id fields session).log } trivial (by
    simp [InputScheduler.step, admitted, State.accept, isEnded, taskStep, State.setTask,
      State.emit, hslots, h.stop])
  have hraised := hstarted.to (.task s.tasks.length .raises) {
    admitted s id fields session with
      tasks := s.tasks ++ [⟨id, fields, session, none, .done false⟩]
      inflight := []
      slots := s.slots
      log := .ended s.tasks.length none :: .started s.tasks.length session ::
        (admitted s id fields session).log } trivial (by
    simp [InputScheduler.step, admitted, State.accept, isEnded, taskStep, State.setTask,
      State.emit, State.finish, Task.holdsSlot, h.inflight]
    omega)
  have hend := hraised.to (.main .next) {
    admitted s id fields session with
      main := .top
      tasks := s.tasks ++ [⟨id, fields, session, none, .done false⟩]
      inflight := []
      slots := s.slots
      log := .ended s.tasks.length none :: .started s.tasks.length session ::
        (admitted s id fields session).log } trivial (by
    simp [InputScheduler.step, admitted, State.accept, isEnded, mainStep, State.at_])
  have hdone : (s.tasks ++ [⟨id, fields, session, none, .done false⟩])[s.tasks.length]?.any
      Task.isDone = true := by simp [Task.isDone]
  refine ⟨_, _, hend, ⟨rfl, fun t ht ↦ ?_, fun i hi ↦ ?_, fun sid i hi ↦ ?_, rfl, h.slots, h.stop⟩,
    ?_⟩
  · rcases List.mem_append.mp ht with hold | hnew
    · exact h.tasks t hold
    · rw [List.mem_singleton.mp hnew]
      rfl
  · have hlast : i = s.tasks.length := List.mem_singleton.mp hi
    rw [hlast]
    exact hdone
  · have hlast : s.tasks.length = i := by
      simp only [admitted, State.accept] at hi
      split at hi <;> cases hi
      rfl
    rw [← hlast]
    exact hdone
  · -- Later tasks change nothing about the earlier ones.
    have hmono : s.log.countP (fun
        | .started i _ => s.tasks[i]?.any fun t ↦ t.mid = id
        | _ => false) ≤ s.log.countP (fun
        | .started i _ => (s.tasks ++ [⟨id, fields, session, none, .done false⟩])[i]?.any
            fun t ↦ t.mid = id
        | _ => false) := by
      refine List.countP_mono_left fun e _ he ↦ ?_
      cases e with
      | started i sid =>
          obtain ⟨t, ht, hid⟩ := (Option.any_eq_true _ _).mp he
          refine (Option.any_eq_true _ _).mpr ⟨t, ?_, hid⟩
          rw [List.getElem?_append_left (List.getElem?_eq_some_iff.mp ht).1]
          exact ht
      | _ => cases he
    simp only [handlings, admitted, State.accept, List.countP_cons]
    simpa using hmono

/-- Nothing bounds the retries. -/
theorem exists_run_handlings (id : ℕ) {session : SessionId} (hconcurrency : 0 < c.concurrency)
    (hsession : c.sessionId fields = some session) (k : ℕ) :
    ∃ n s, PoisonRun c id fields n s ∧ Idle c s ∧ k ≤ handlings id s := by
  induction k with
  | zero =>
      refine ⟨0, .start c, .start, ⟨rfl, ?_, ?_, ?_, rfl, rfl, rfl⟩, Nat.zero_le _⟩
      · exact fun _ ht ↦ nomatch ht
      · exact fun _ hi ↦ nomatch hi
      · exact fun _ _ hi ↦ nomatch hi
  | succ k ih =>
      obtain ⟨n, s, hrun, hidle, hle⟩ := ih
      obtain ⟨n', s', hrun', hidle', hagain⟩ := hrun.again hconcurrency hsession hidle
      exact ⟨n', s', hrun', hidle', by omega⟩

end Inputs

/-! ## Both streams -/

inductive RunnerStream where
  | jobs
  | inputs
  deriving DecidableEq, Repr

/-- Of the message `id` on the stream, whose handling raises on every delivery. -/
def PoisonBounded {F : Type} (ε : Type) (c : InputScheduler.Config F) (maxDeliveries : ℕ)
    (stream : RunnerStream) (id : ℕ) (fields : F) : Prop :=
  match stream with
  | .jobs => JobBounded F ε maxDeliveries id
  | .inputs => InputBounded c maxDeliveries id fields

theorem poison_bounded_iff {F ε : Type} {c : InputScheduler.Config F} {maxDeliveries : ℕ}
    (hpos : 0 < maxDeliveries) (hconcurrency : 0 < c.concurrency) (stream : RunnerStream) (id : ℕ)
    (fields : F) : PoisonBounded ε c maxDeliveries stream id fields ↔
      stream = .jobs ∨ c.sessionId fields = none := by
  cases stream with
  | jobs => exact ⟨fun _ ↦ .inl rfl, fun _ ↦ jobBounded F ε hpos id⟩
  | inputs =>
      constructor
      · intro hbounded
        cases hsession : c.sessionId fields with
        | none => exact .inr rfl
        | some session =>
            obtain ⟨n, s, hrun, -, hle⟩ :=
              exists_run_handlings id hconcurrency hsession (maxDeliveries + 1)
            exact absurd (hbounded n s hrun).1 (by omega)
      · rintro (hjobs | hnone)
        · cases hjobs
        · exact inputBounded_of_malformed hpos hnone

/-- The payload of a `runner.send_input.v1` envelope; `none` where a key is missing. -/
structure SendInput where
  sessionId : Option SessionId
  guildId : Option GuildId
  threadId : ThreadId
  hostId : HostId
  text : Option PyStr
  idempotencyKey : Option Key
  lifecycleVersion : Option ℕ

/-- What `dispatch_runner_job` builds of it, or `none` for the `KeyError`. -/
def SendInput.payload (p : SendInput) : Option InputJobPayload := do
  let sessionId ← p.sessionId
  let guildId ← p.guildId
  let text ← p.text
  let key ← p.idempotencyKey
  some ⟨sessionId, guildId, p.threadId, p.hostId, text, key, p.lifecycleVersion⟩

def inputStream : InputScheduler.Config SendInput := ⟨SendInput.sessionId, 8⟩

/-- Input without a text. -/
def withoutText : SendInput := ⟨some 7, some 1, 1, 1, none, some 3, none⟩

theorem poison_bounded_iff_withoutText :
    (PoisonBounded String inputStream 5 .jobs 1 withoutText ↔
      RunnerStream.jobs = .jobs ∨ inputStream.sessionId withoutText = none) ∧
    (PoisonBounded String inputStream 5 .inputs 1 withoutText ↔
      RunnerStream.inputs = .jobs ∨ inputStream.sessionId withoutText = none) :=
  ⟨poison_bounded_iff (by decide) (by decide) .jobs 1 withoutText,
    poison_bounded_iff (by decide) (by decide) .inputs 1 withoutText⟩

theorem input_without_text_unbounded : withoutText.payload = none ∧
    ¬ PoisonBounded String inputStream 5 .inputs 1 withoutText := by
  refine ⟨rfl, fun hbounded ↦ ?_⟩
  obtain ⟨n, s, hrun, -, hle⟩ := exists_run_handlings 1 (c := inputStream) (by decide)
    (show inputStream.sessionId withoutText = some 7 from rfl) 6
  exact absurd (hbounded n s hrun).1 (by omega)

end PoisonMessages

end Discode
