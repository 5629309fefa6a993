import Discode.Library.PoolCensus
import Discode.TypingTracker

/-!
# What the tracker knows

In every run the indicator of a thread runs exactly while the count of the thread is positive, and
the safety timeout that is asleep for a thread is that of its indicator.
-/

set_option autoImplicit false

namespace Discode.Typing

open ProcessPool (Action)

/-! ## The dicts -/

/-- An indicator has its safety timeout, and runs if and only if the count is positive. -/
structure Tracker.Agrees (t : Tracker) : Prop where
  running : ∀ thread, t.isRunning thread = true ↔ 0 < t.pending thread
  timeouts : t.timeouts = t.tasks

namespace Tracker

@[simp] theorem pending_setCount (t : Tracker) (thread : ThreadId) (n : ℕ) :
    (t.setCount thread n).pending = Function.update t.pending thread n := by
  funext th
  by_cases hth : th = thread
  · subst hth
    simp [pending, setCount]
  · simp [pending, setCount, hth]

@[simp] theorem pending_pop (t : Tracker) (thread : ThreadId) :
    (t.pop thread).pending = Function.update t.pending thread 0 := by
  funext th
  by_cases hth : th = thread
  · subst hth
    simp [pending, pop]
  · simp [pending, pop, hth]

@[simp] theorem pending_noteUserMessage (t : Tracker) (thread : ThreadId) (id : ℕ) :
    (t.noteUserMessage thread id).pending =
      Function.update t.pending thread (t.pending thread + 1) := by
  rw [← pending_setCount, noteUserMessage]
  split <;> rfl

@[simp] theorem tasks_noteUserMessage (t : Tracker) (thread : ThreadId) (id : ℕ) :
    (t.noteUserMessage thread id).tasks =
      Function.update t.tasks thread (some ((t.tasks thread).getD id)) := by
  rw [noteUserMessage]
  split
  · next hrunning =>
    obtain ⟨id', hid'⟩ := Option.isSome_iff_exists.mp hrunning
    have htasks : t.tasks thread = some id' := hid'
    rw [htasks, Option.getD_some, ← htasks, Function.update_eq_self]
    rfl
  · next hrunning =>
    have htasks : t.tasks thread = none := Option.not_isSome_iff_eq_none.mp hrunning
    rw [htasks]
    rfl

theorem pop_setCount (t : Tracker) (thread : ThreadId) (n : ℕ) :
    (t.setCount thread n).pop thread = t.pop thread := by
  rw [pop, pop, setCount]
  simp

/-- What is left after the three `pop`. -/
theorem tasks_pop_eq_some {t : Tracker} {thread th : ThreadId} {id : ℕ} :
    (t.pop thread).tasks th = some id ↔ th ≠ thread ∧ t.tasks th = some id := by
  change Function.update t.tasks thread none th = some id ↔ _
  by_cases hth : th = thread
  · subst hth
    simp
  · simp [hth]

theorem isRunning_iff {t : Tracker} {thread : ThreadId} :
    t.isRunning thread = true ↔ ∃ id, t.tasks thread = some id :=
  Option.isSome_iff_exists

namespace Agrees

theorem empty : Tracker.empty.Agrees := by
  refine ⟨fun thread ↦ ?_, rfl⟩
  change false = true ↔ 0 < 0
  simp

theorem pending_pos {t : Tracker} (h : t.Agrees) {thread : ThreadId} {id : ℕ}
    (hid : t.tasks thread = some id) : 0 < t.pending thread :=
  (h.running thread).mp (isRunning_iff.mpr ⟨id, hid⟩)

theorem tasks_eq_none {t : Tracker} (h : t.Agrees) {thread : ThreadId}
    (hzero : t.pending thread = 0) : t.tasks thread = none := by
  cases hid : t.tasks thread with
  | none => rfl
  | some id => exact absurd (h.pending_pos hid) (by omega)

theorem noteUserMessage {t : Tracker} (h : t.Agrees) (thread : ThreadId) (id : ℕ) :
    (t.noteUserMessage thread id).Agrees := by
  constructor
  · intro th
    rw [isRunning, tasks_noteUserMessage, pending_noteUserMessage]
    by_cases hth : th = thread
    · subst hth
      simp
    · rw [Function.update_of_ne hth, Function.update_of_ne hth]
      exact h.running th
  · rw [Tracker.noteUserMessage]
    split
    · exact h.timeouts
    · change Function.update t.timeouts thread _ = Function.update t.tasks thread _
      rw [h.timeouts]

theorem pop {t : Tracker} (h : t.Agrees) (thread : ThreadId) : (t.pop thread).Agrees := by
  constructor
  · intro th
    rw [pending_pop]
    by_cases hth : th = thread
    · subst hth
      simp [isRunning, Tracker.pop]
    · simpa [isRunning, Tracker.pop, hth] using h.running th
  · rw [Tracker.pop, h.timeouts]

theorem setCount {t : Tracker} (h : t.Agrees) {thread : ThreadId} {n : ℕ}
    (hpos : 0 < t.pending thread) : (t.setCount thread (n + 1)).Agrees := by
  refine ⟨fun th ↦ ?_, h.timeouts⟩
  rw [pending_setCount]
  by_cases hth : th = thread
  · subst hth
    have hrunning : (t.setCount th (n + 1)).isRunning th = true := (h.running th).mpr hpos
    simp [hrunning]
  · rw [Function.update_of_ne hth]
    exact h.running th

end Agrees

end Tracker

/-! ## Stops -/

/-- It may still end by itself. -/
def SafetyPhase.isLive : SafetyPhase → Bool
  | .created => true
  | .sleeping _ => true
  | _ => false

/-- The thread has lost its indicator and its safety timeout; `current` is left alone. -/
structure World.Pops (w w' : World) (thread : ThreadId) (current : Option ℕ) : Prop where
  tracker : w'.tracker = w.tracker.pop thread
  now : w'.now = w.now
  turns : w'.turns = w.turns
  safetyStops : w'.safetyStops = w.safetyStops
  safeties : ∀ id s, w'.safeties id = some s → s.phase.isLive = true →
    w.safeties id = some s ∧ (w.tracker.timeouts thread = some id → current = some id)

namespace World

theorem setSafety_safeties (w : World) (id : ℕ) (phase : SafetyPhase) {id' : ℕ} {s : Safety}
    (h : (w.setSafety id phase).safeties id' = some s) :
    (id' ≠ id ∧ w.safeties id' = some s) ∨
      id' = id ∧ ∃ s', w.safeties id = some s' ∧ s = { s' with phase := phase } := by
  change Function.update w.safeties id _ id' = some s at h
  by_cases hid : id' = id
  · subst hid
    rw [Function.update_self] at h
    obtain ⟨s', hs', rfl⟩ := Option.map_eq_some_iff.mp h
    exact .inr ⟨rfl, s', hs', rfl⟩
  · rw [Function.update_of_ne hid] at h
    exact .inl ⟨hid, h⟩

/-- A task that does not end by itself is none of the live ones. -/
theorem setSafety_live (w : World) {id : ℕ} {phase : SafetyPhase} (hphase : phase.isLive = false)
    {id' : ℕ} {s : Safety} (h : (w.setSafety id phase).safeties id' = some s)
    (hs : s.phase.isLive = true) : id' ≠ id ∧ w.safeties id' = some s := by
  rcases w.setSafety_safeties id phase h with hother | ⟨-, s', -, rfl⟩
  · exact hother
  · rw [hphase] at hs
    cases hs

theorem stop_pops (w : World) (thread : ThreadId) (current : Option ℕ) :
    w.Pops (w.stop thread current).1 thread current := by
  rw [stop]
  split
  · next id hid =>
    split
    · refine ⟨rfl, rfl, rfl, rfl, fun id' s h hs ↦ ?_⟩
      obtain ⟨hne, h⟩ := setSafety_live _ rfl h hs
      exact ⟨h, fun hid' ↦ absurd (Option.some.inj (hid.symm.trans hid')).symm hne⟩
    · next hskip =>
      refine ⟨rfl, rfl, rfl, rfl, fun id' s h hs ↦ ⟨h, fun hid' ↦ ?_⟩⟩
      by_contra hcurrent
      -- A timeout that is not cancelled although it is not the caller has come to its end.
      have hdone : w.safetyDone id' = true := by
        rw [hid] at hid'
        cases hid'
        simpa [Ne.symm hcurrent] using hskip
      have hphase : s.phase = .done := by simpa [safetyDone, show w.safeties id' = some s from h]
        using hdone
      rw [hphase] at hs
      cases hs
  · next hnone =>
    refine ⟨rfl, rfl, rfl, rfl, fun id' s h hs ↦ ⟨h, fun hid' ↦ ?_⟩⟩
    rw [hnone] at hid'
    cases hid'

theorem Pops.setSafety {w w' : World} {thread : ThreadId} {id : ℕ}
    (h : w.Pops w' thread (some id)) {phase : SafetyPhase} (hphase : phase.isLive = false) :
    w.Pops (w'.setSafety id phase) thread none := by
  refine ⟨h.tracker, h.now, h.turns, h.safetyStops, fun id' s hs hlive ↦ ?_⟩
  obtain ⟨hne, hs⟩ := setSafety_live _ hphase hs hlive
  obtain ⟨hs, hcurrent⟩ := h.safeties id' s hs hlive
  exact ⟨hs, fun hid ↦ absurd (Option.some.inj (hcurrent hid)).symm hne⟩

/-- What `note_bot_message` does to the world. -/
theorem noteBotMessage_cases (w : World) (thread : ThreadId) :
    (w.tracker.pending thread = 0 ∧ (w.noteBotMessage thread).1 = w) ∨
    (∃ n, w.tracker.pending thread = n + 2 ∧ (w.noteBotMessage thread).1 =
      { w with tracker := w.tracker.setCount thread (n + 1) }) ∨
    (w.tracker.pending thread = 1 ∧ w.Pops (w.noteBotMessage thread).1 thread none) := by
  rw [noteBotMessage]
  match hpending : w.tracker.pending thread with
  | 0 => exact .inl ⟨rfl, rfl⟩
  | 1 =>
      right
      right
      have hpops := stop_pops { w with tracker := w.tracker.setCount thread 0 } thread none
      refine ⟨rfl, ?_⟩
      simp only [Nat.one_ne_zero, if_false, Nat.sub_self, Tracker.pending_setCount,
        Function.update_self, if_true]
      exact ⟨hpops.tracker.trans (Tracker.pop_setCount _ _ _), hpops.now, hpops.turns,
        hpops.safetyStops, hpops.safeties⟩
  | n + 2 =>
      right
      left
      refine ⟨n, rfl, ?_⟩
      simp

/-- A safety timeout that finds an indicator pops it, and is counted. -/
theorem safetyTimeout_cases (w : World) (id : ℕ) (thread : ThreadId) :
    (w.tracker.isRunning thread = false ∧ w.safetyTimeout id thread = w.setSafety id .done) ∨
    ∃ w', w.Pops w' thread none ∧ w.safetyTimeout id thread = { w' with
      safetyStops := Function.update w'.safetyStops thread (w'.safetyStops thread + 1) } := by
  rw [safetyTimeout]
  split
  · right
    have hlive : (((w.stop thread (some id)).2.map SafetyPhase.stopping).getD .done).isLive =
        false := by
      cases (w.stop thread (some id)).2 <;> rfl
    exact ⟨_, (w.stop_pops thread (some id)).setSafety hlive, rfl⟩
  · next hrunning => exact .inl ⟨Bool.not_eq_true _ ▸ hrunning, rfl⟩

/-! ## Messages -/

theorem receive_tasks (w : World) (pid : ℕ) (m : Message) : (w.receive pid m).tracker.tasks =
    Function.update w.tracker.tasks m.thread (some ((w.tracker.tasks m.thread).getD pid)) :=
  w.tracker.tasks_noteUserMessage m.thread pid

theorem receive_pending (w : World) (pid : ℕ) (m : Message) : (w.receive pid m).tracker.pending =
    Function.update w.tracker.pending m.thread (w.tracker.pending m.thread + 1) :=
  w.tracker.pending_noteUserMessage m.thread pid

theorem receive_turn (w : World) (pid : ℕ) (m : Message) : (w.receive pid m).turns pid = some
    { thread := m.thread
      startedAt := w.now
      indicator := (w.tracker.tasks m.thread).getD pid
      safetiesBefore := w.safetyStops m.thread
      state := m.state } := by
  refine (Function.update_self ..).trans ?_
  have hindicator := congrFun (w.receive_tasks pid m) m.thread
  rw [Function.update_self] at hindicator
  change (w.noteUserMessage m.thread pid).tracker.tasks m.thread = _ at hindicator
  rw [hindicator]
  rfl

theorem receive_turns_of_ne (w : World) (m : Message) {pid i : ℕ} (h : i ≠ pid) :
    (w.receive pid m).turns i = w.turns i :=
  Function.update_of_ne h ..

/-- An indicator that runs goes on. -/
theorem receive_keeps (w : World) (pid : ℕ) (m : Message) {thread : ThreadId} {id : ℕ}
    (h : w.tracker.tasks thread = some id) :
    (w.receive pid m).tracker.tasks thread = some id := by
  rw [receive_tasks]
  by_cases hthread : thread = m.thread
  · subst hthread
    rw [Function.update_self, h, Option.getD_some]
  · rwa [Function.update_of_ne hthread]

end World

/-! ## The invariant of the world -/

/-- What holds of the tracker, the turns and the safety timeouts after `next` messages. -/
structure World.Sound (limits : Limits) (next : ℕ) (w : World) : Prop where
  agrees : w.tracker.Agrees
  tasks : ∀ thread id, w.tracker.tasks thread = some id → id < next
  turns : ∀ pid turn, w.turns pid = some turn →
    pid < next ∧ turn.indicator < next ∧ turn.startedAt ≤ w.now
  live : ∀ id s, w.safeties id = some s → s.phase.isLive = true →
    w.tracker.tasks s.thread = some id ∧ ∃ turn, w.turns id = some turn ∧
      ∀ wake, s.phase = .sleeping wake → turn.startedAt + limits.maxDuration ≤ wake
  stops : ∀ pid turn, w.turns pid = some turn →
    w.tracker.tasks turn.thread = some turn.indicator →
      turn.safetiesBefore = w.safetyStops turn.thread

namespace World.Sound

variable {limits : Limits} {next : ℕ} {w w' : World}

theorem fresh (h : Fresh w) (limits : Limits) : w.Sound limits 0 := by
  obtain ⟨htracker, hsafeties, hturns⟩ := h
  refine ⟨htracker ▸ Tracker.Agrees.empty, fun thread id hid ↦ ?_, fun pid turn hturn ↦ ?_,
    fun id s hs ↦ ?_, fun pid turn hturn ↦ ?_⟩
  · rw [htracker] at hid
    cases hid
  · cases (hturns pid).symm.trans hturn
  · cases (hsafeties id).symm.trans hs
  · cases (hturns pid).symm.trans hturn

theorem tick (h : w.Sound limits next) (d : ℕ) : { w with now := w.now + d }.Sound limits next where
  agrees := h.agrees
  tasks := h.tasks
  turns pid turn hturn := by
    obtain ⟨hpid, hindicator, hstarted⟩ := h.turns pid turn hturn
    exact ⟨hpid, hindicator, hstarted.trans (Nat.le_add_right _ _)⟩
  live := h.live
  stops := h.stops

/-- The row of a turn and its state are of no concern. -/
theorem setTurn (h : w.Sound limits next) {pid : ℕ} {turn turn' : Turn}
    (hturn : w.turns pid = some turn) (horigin : turn'.toOrigin = turn.toOrigin) :
    (w.setTurn pid turn').Sound limits next := by
  have hold : ∀ i t', (w.setTurn pid turn').turns i = some t' →
      ∃ t, w.turns i = some t ∧ t'.toOrigin = t.toOrigin := by
    intro i t' ht'
    change Function.update w.turns pid _ i = some t' at ht'
    by_cases hi : i = pid
    · subst hi
      rw [Function.update_self] at ht'
      cases ht'
      exact ⟨turn, hturn, horigin⟩
    · rw [Function.update_of_ne hi] at ht'
      exact ⟨t', ht', rfl⟩
  refine ⟨h.agrees, h.tasks, fun i t' ht' ↦ ?_, fun id s hs hlive ↦ ?_, fun i t' ht' ↦ ?_⟩
  · obtain ⟨t, ht, ho⟩ := hold i t' ht'
    rw [ho]
    exact h.turns i t ht
  · obtain ⟨htasks, t, ht, hwake⟩ := h.live id s hs hlive
    refine ⟨htasks, ?_⟩
    by_cases hid : id = pid
    · subst hid
      cases hturn.symm.trans ht
      refine ⟨turn', Function.update_self .., ?_⟩
      rw [horigin]
      exact hwake
    · exact ⟨t, (Function.update_of_ne hid ..).trans ht, hwake⟩
  · obtain ⟨t, ht, ho⟩ := hold i t' ht'
    rw [ho]
    exact h.stops i t ht

theorem setSafety (h : w.Sound limits next) (id : ℕ) {phase : SafetyPhase}
    (hphase : phase.isLive = false) : (w.setSafety id phase).Sound limits next where
  agrees := h.agrees
  tasks := h.tasks
  turns := h.turns
  live id' s hs hlive := h.live id' s (setSafety_live w hphase hs hlive).2 hlive
  stops := h.stops

/-- A safety timeout sleeps for `max_duration` from its first run on. -/
theorem safetyBegins (h : w.Sound limits next) {id : ℕ} {s : Safety}
    (hs : w.safeties id = some s) (hphase : s.phase = .created) :
    (w.setSafety id (.sleeping (w.now + limits.maxDuration))).Sound limits next := by
  refine ⟨h.agrees, h.tasks, h.turns, fun id' s' hs' hlive ↦ ?_, h.stops⟩
  rcases w.setSafety_safeties id _ hs' with ⟨-, hother⟩ | ⟨rfl, s₀, hs₀, rfl⟩
  · exact h.live id' s' hother hlive
  · cases hs.symm.trans hs₀
    obtain ⟨htasks, turn, hturn, -⟩ := h.live id' s hs (by rw [hphase]; rfl)
    refine ⟨htasks, turn, hturn, fun wake hwake ↦ ?_⟩
    cases hwake
    exact Nat.add_le_add_right (h.turns id' turn hturn).2.2 _

theorem pops (h : w.Sound limits next) {thread : ThreadId} (hw' : w.Pops w' thread none) :
    w'.Sound limits next := by
  have htasks : ∀ th id, w'.tracker.tasks th = some id →
      th ≠ thread ∧ w.tracker.tasks th = some id :=
    fun th id hid ↦ Tracker.tasks_pop_eq_some.mp (hw'.tracker ▸ hid)
  refine ⟨hw'.tracker ▸ h.agrees.pop thread, fun th id hid ↦ h.tasks th id (htasks th id hid).2,
    ?_, fun id s hs hlive ↦ ?_, ?_⟩
  · rw [hw'.turns, hw'.now]
    exact h.turns
  · obtain ⟨hs, hcurrent⟩ := hw'.safeties id s hs hlive
    obtain ⟨hid, hturn⟩ := h.live id s hs hlive
    have hthread : s.thread ≠ thread := by
      intro heq
      rw [h.agrees.timeouts, ← heq] at hcurrent
      cases hcurrent hid
    rw [hw'.tracker, hw'.turns]
    exact ⟨Tracker.tasks_pop_eq_some.mpr ⟨hthread, hid⟩, hturn⟩
  · rw [hw'.turns, hw'.safetyStops]
    exact fun pid turn hturn hid ↦ h.stops pid turn hturn (htasks _ _ hid).2

theorem setCount (h : w.Sound limits next) {thread : ThreadId} {n : ℕ}
    (hpos : 0 < w.tracker.pending thread) :
    { w with tracker := w.tracker.setCount thread (n + 1) }.Sound limits next where
  agrees := h.agrees.setCount hpos
  tasks := h.tasks
  turns := h.turns
  live := h.live
  stops := h.stops

theorem noteBotMessage (h : w.Sound limits next) (thread : ThreadId) :
    (w.noteBotMessage thread).1.Sound limits next := by
  obtain ⟨-, heq⟩ | ⟨n, hpending, heq⟩ | ⟨-, hpops⟩ := w.noteBotMessage_cases thread
  · rw [heq]
    exact h
  · rw [heq]
    exact h.setCount (by omega)
  · exact h.pops hpops

theorem countStop (h : w.Sound limits next) {thread : ThreadId}
    (hnone : w.tracker.tasks thread = none) (stops : ℕ) :
    { w with safetyStops := Function.update w.safetyStops thread stops }.Sound limits next := by
  refine ⟨h.agrees, h.tasks, h.turns, h.live, fun pid turn hturn hid ↦ ?_⟩
  have hthread : turn.thread ≠ thread := by
    intro heq
    rw [← heq] at hnone
    cases hnone.symm.trans hid
  exact (h.stops pid turn hturn hid).trans (Function.update_of_ne hthread ..).symm

theorem safetyTimeout (h : w.Sound limits next) (id : ℕ) (thread : ThreadId) :
    (w.safetyTimeout id thread).Sound limits next := by
  obtain ⟨-, heq⟩ | ⟨w', hpops, heq⟩ := w.safetyTimeout_cases id thread
  · rw [heq]
    exact h.setSafety id rfl
  · rw [heq]
    have hnone : w'.tracker.tasks thread = none := by
      rw [hpops.tracker]
      exact Function.update_self ..
    exact (h.pops hpops).countStop hnone _

/-- A message is counted for the indicator that runs, or for a new one. -/
theorem receive (h : w.Sound limits next) (m : Message) :
    (w.receive next m).Sound limits (next + 1) := by
  have htasks := w.receive_tasks next m
  have hbound : (w.tracker.tasks m.thread).getD next < next + 1 := by
    cases hid : w.tracker.tasks m.thread with
    | none => exact Nat.lt_succ_self next
    | some id => exact (h.tasks _ id hid).trans (Nat.lt_succ_self next)
  have hold : ∀ th id, id < next → (w.receive next m).tracker.tasks th = some id →
      w.tracker.tasks th = some id := by
    intro th id hlt hid
    rw [htasks] at hid
    by_cases hth : th = m.thread
    · subst hth
      rw [Function.update_self] at hid
      cases hcurrent : w.tracker.tasks m.thread with
      | none =>
          rw [hcurrent, Option.getD_none, Option.some.injEq] at hid
          omega
      | some id' => rwa [hcurrent, Option.getD_some] at hid
    · rwa [Function.update_of_ne hth] at hid
  refine ⟨h.agrees.noteUserMessage m.thread next, fun th id hid ↦ ?_, fun i turn ht ↦ ?_,
    fun id s hs hlive ↦ ?_, fun i turn ht hid ↦ ?_⟩
  · rw [htasks] at hid
    by_cases hth : th = m.thread
    · subst hth
      rw [Function.update_self, Option.some.injEq] at hid
      omega
    · rw [Function.update_of_ne hth] at hid
      exact (h.tasks th id hid).trans (Nat.lt_succ_self next)
  · by_cases hi : i = next
    · subst hi
      cases (w.receive_turn i m).symm.trans ht
      exact ⟨Nat.lt_succ_self _, hbound, Nat.le_refl _⟩
    · rw [receive_turns_of_ne w m hi] at ht
      obtain ⟨hpid, hind, hstarted⟩ := h.turns i turn ht
      exact ⟨hpid.trans (Nat.lt_succ_self _), hind.trans (Nat.lt_succ_self _), hstarted⟩
  · change (if w.tracker.isRunning m.thread then w.safeties
      else Function.update w.safeties next (some ⟨m.thread, .created⟩)) id = some s at hs
    by_cases hnew : w.safeties id = some s
    · obtain ⟨hid, turn, hturn, hwake⟩ := h.live id s hnew hlive
      have hlt := h.tasks _ id hid
      exact ⟨w.receive_keeps next m hid, turn,
        (w.receive_turns_of_ne m (Nat.ne_of_lt hlt)).trans hturn, hwake⟩
    · split at hs
      · exact absurd hs hnew
      · next hrunning =>
        by_cases hid : id = next
        · subst hid
          rw [Function.update_self] at hs
          cases hs
          have hnone : w.tracker.tasks m.thread = none :=
            Option.not_isSome_iff_eq_none.mp hrunning
          refine ⟨?_, _, w.receive_turn id m, fun wake hwake ↦ by cases hwake⟩
          rw [htasks, Function.update_self, hnone]
          rfl
        · rw [Function.update_of_ne hid] at hs
          exact absurd hs hnew
  · by_cases hi : i = next
    · subst hi
      cases (w.receive_turn i m).symm.trans ht
      rfl
    · rw [receive_turns_of_ne w m hi] at ht
      exact h.stops i turn ht (hold _ _ (h.turns i turn ht).2.1 hid)

end World.Sound

/-! ## The steps of the tasks -/

/-- What the suspended task of a turn knows about it. -/
def Phase.Fits (turn : Turn) : Phase → Prop
  | .enqueuing => turn.state = .enqueuing
  | .accepted => ∃ row, turn.state = .accepted row
  | .queued => ∃ row, turn.state = .accepted row
  | .watching deadline w => turn.startedAt + watchLimit ≤ deadline ∧
      ∃ row, turn.state = .accepted row ∧ (w = .closing true → rowOver row = true)
  | .stopping _ => True

theorem Phase.Fits.accepted {turn : Turn} {p : Phase} {old row : Option TurnStatus}
    (h : p.Fits turn) (hstate : turn.state = .accepted old)
    (hover : rowOver old = true → rowOver row = true) :
    p.Fits { turn with state := .accepted row } := by
  cases p with
  | enqueuing => cases hstate.symm.trans h
  | accepted => exact ⟨row, rfl⟩
  | queued => exact ⟨row, rfl⟩
  | watching deadline w =>
      obtain ⟨hdeadline, old', hold, hclosing⟩ := h
      cases hstate.symm.trans hold
      exact ⟨hdeadline, row, rfl, fun hw ↦ hover (hclosing hw)⟩
  | stopping s => trivial

/-- What a step of the environment does. -/
theorem envStep_cases {limits : Limits} {w w' : World} {e : Env}
    (h : envStep limits w e = some w') :
    (∃ d, e = .tick d ∧ w' = { w with now := w.now + d }) ∨
    (∃ pid turn old row, e = .row pid row ∧ w.turns pid = some turn ∧
      turn.state = .accepted old ∧ (rowOver old = true → rowOver row = true) ∧
      w' = w.setTurn pid { turn with state := .accepted row }) ∨
    (∃ id s, e = .safetyBegins id ∧ w.safeties id = some s ∧ s.phase = .created ∧
      w' = w.setSafety id (.sleeping (w.now + limits.maxDuration))) ∨
    (∃ id s wake, e = .safetyFires id ∧ w.safeties id = some s ∧ s.phase = .sleeping wake ∧
      wake ≤ w.now ∧ w' = w.safetyTimeout id s.thread) ∨
    ∃ id phase, (∀ i, e ≠ .safetyFires i) ∧ phase.isLive = false ∧ w' = w.setSafety id phase := by
  cases e with
  | tick d =>
      cases h
      exact .inl ⟨d, rfl, rfl⟩
  | row pid row =>
      obtain ⟨turn, hturn, h⟩ := Option.bind_eq_some_iff.mp h
      split at h
      · next old hstate =>
        split at h
        · next hover =>
          cases h
          exact .inr (.inl ⟨pid, turn, old, row, rfl, hturn, hstate, hover, rfl⟩)
        · cases h
      · cases h
  | safetyBegins id =>
      obtain ⟨s, hs, h⟩ := Option.bind_eq_some_iff.mp h
      split at h
      · next hphase =>
        cases h
        exact .inr (.inr (.inl ⟨id, s, rfl, hs, hphase, rfl⟩))
      · cases h
  | safetyFires id =>
      obtain ⟨s, hs, h⟩ := Option.bind_eq_some_iff.mp h
      split at h
      · next wake hphase =>
        split at h
        · next hwake =>
          cases h
          exact .inr (.inr (.inr (.inl ⟨id, s, wake, rfl, hs, hphase, hwake, rfl⟩)))
        · cases h
      · cases h
  | safetyEnds id =>
      obtain ⟨s, hs, h⟩ := Option.bind_eq_some_iff.mp h
      split at h
      · cases h
        exact .inr (.inr (.inr (.inr ⟨id, .done, (fun i hi ↦ nomatch hi), rfl, rfl⟩)))
      · cases h
  | safetyResumes id =>
      obtain ⟨s, hs, h⟩ := Option.bind_eq_some_iff.mp h
      split at h
      · obtain ⟨next, hnext, rfl⟩ := Option.map_eq_some_iff.mp h
        refine .inr (.inr (.inr (.inr ⟨id, _, (fun i hi ↦ nomatch hi), ?_, rfl⟩)))
        cases next <;> rfl
      · cases h

/-- What a step of the task of a turn does: a wait of `_stop` ends, `note_bot_message` is called,
or the task goes on. -/
theorem taskStep_cases {pid : ℕ} {w w' : World} {p : Phase} {a : Act} {q : Option Phase}
    (h : taskStep pid w p a = some (w', q)) :
    (∃ wait, ∃ next : Option Stopping, p = .stopping wait ∧ w' = w ∧
      q = next.map Phase.stopping) ∨
    (∃ turn, w.turns pid = some turn ∧ p.leaves a = true ∧ p.due w.now a = true ∧
      (w', q) = (w.setTurn pid (turn.after a)).leave turn.thread) ∨
    ∃ turn p', w.turns pid = some turn ∧ p.leaves a = false ∧ p.next w turn a = some p' ∧
      w' = w.setTurn pid (turn.after a) ∧ q = some p' := by
  unfold taskStep at h
  split at h
  · next wait =>
    obtain ⟨next, hnext, heq⟩ := Option.map_eq_some_iff.mp h
    cases heq
    exact .inl ⟨wait, next, rfl, rfl, rfl⟩
  · obtain ⟨turn, hturn, h⟩ := Option.bind_eq_some_iff.mp h
    split at h
    · next hleaves =>
      split at h
      · next hdue => exact .inr (.inl ⟨turn, hturn, hleaves, hdue, (Option.some.inj h).symm⟩)
      · cases h
    · next hstays =>
      obtain ⟨p', hp', heq⟩ := Option.map_eq_some_iff.mp h
      cases heq
      exact .inr (.inr ⟨turn, p', hturn, Bool.not_eq_true _ ▸ hstays, hp', rfl, rfl⟩)

end Discode.Typing
