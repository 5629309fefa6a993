import Discode.TypingTurns

/-!
# Whose indicator it is

As long as no watcher takes the count of a turn that is not its own, and no safety timeout ends the
indicator under a turn that came later than its first one, the count of a thread is the number of
its turns that are watched, and every young unfinished turn keeps its indicator.
-/

set_option autoImplicit false

namespace Discode.Typing

open ProcessPool (Action State)

/-! ## Turns and their tasks -/

@[simp] theorem Turn.after_toOrigin (turn : Turn) (a : Act) :
    (turn.after a).toOrigin = turn.toOrigin := by
  cases a <;> rfl

@[simp] theorem World.setTurn_self (w : World) (pid : ℕ) (turn : Turn) :
    (w.setTurn pid turn).turns pid = some turn :=
  Function.update_self ..

theorem World.setTurn_of_ne (w : World) (turn : Turn) {pid i : ℕ} (h : i ≠ pid) :
    (w.setTurn pid turn).turns i = w.turns i :=
  Function.update_of_ne h ..

theorem World.noteBotMessage_turns (w : World) (thread : ThreadId) :
    (w.noteBotMessage thread).1.turns = w.turns ∧ (w.noteBotMessage thread).1.now = w.now := by
  obtain ⟨-, heq⟩ | ⟨n, -, heq⟩ | ⟨-, hpops⟩ := w.noteBotMessage_cases thread
  · rw [heq]
    exact ⟨rfl, rfl⟩
  · rw [heq]
    exact ⟨rfl, rfl⟩
  · exact ⟨hpops.turns, hpops.now⟩

theorem World.safetyTimeout_turns (w : World) (id : ℕ) (thread : ThreadId) :
    (w.safetyTimeout id thread).turns = w.turns ∧ (w.safetyTimeout id thread).now = w.now := by
  obtain ⟨-, heq⟩ | ⟨w', hpops, heq⟩ := w.safetyTimeout_cases id thread
  · rw [heq]
    exact ⟨rfl, rfl⟩
  · rw [heq]
    exact ⟨hpops.turns, hpops.now⟩

theorem Phase.next_isCounted {w : World} {turn : Turn} {p p' : Phase} {a : Act}
    (h : p.next w turn a = some p') : p.isCounted = true ∧ p'.isCounted = true := by
  unfold next at h
  split at h
  · cases h
    exact ⟨rfl, rfl⟩
  · cases h
    exact ⟨rfl, rfl⟩
  · cases h
    exact ⟨rfl, rfl⟩
  · split at h
    · cases h
      exact ⟨rfl, rfl⟩
    · cases h
  · cases h
    exact ⟨rfl, rfl⟩
  · split at h
    · cases h
      exact ⟨rfl, rfl⟩
    · cases h
  · cases h

/-- A task that goes on knows what it needs to know. -/
theorem Phase.Fits.next {w : World} {turn : Turn} {p p' : Phase} {a : Act} (h : p.Fits turn)
    (hstarted : turn.startedAt ≤ w.now) (hp' : p.next w turn a = some p') :
    p'.Fits (turn.after a) ∧
      ((turn.after a).isUnfinished = true → turn.isUnfinished = true) := by
  unfold Phase.next at hp'
  split at hp'
  · cases hp'
    have hstate : turn.state = .enqueuing := h
    refine ⟨⟨_, rfl⟩, fun _ ↦ ?_⟩
    rw [Turn.isUnfinished, hstate]
  · cases hp'
    exact ⟨h, id⟩
  · cases hp'
    obtain ⟨row, hrow⟩ := h
    exact ⟨⟨Nat.add_le_add_right hstarted _, row, hrow, fun hw ↦ nomatch hw⟩, id⟩
  · obtain ⟨hdeadline, row, hrow, -⟩ := h
    split at hp'
    · next row' hrow' =>
      cases hp'
      cases hrow.symm.trans hrow'
      refine ⟨⟨hdeadline, row, hrow, fun hw ↦ ?_⟩, id⟩
      injection hw
    · cases hp'
  · cases hp'
    obtain ⟨hdeadline, row, hrow, -⟩ := h
    exact ⟨⟨hdeadline, row, hrow, fun hw ↦ nomatch hw⟩, id⟩
  · obtain ⟨hdeadline, row, hrow, -⟩ := h
    split at hp'
    · cases hp'
      exact ⟨⟨hdeadline, row, hrow, fun hw ↦ nomatch hw⟩, id⟩
    · cases hp'
  · cases hp'

theorem Phase.leaves_isCounted {p : Phase} {a : Act} (h : p.leaves a = true) :
    p.isCounted = true := by
  cases p with
  | stopping s => cases h
  | _ => rfl

theorem Phase.leaves_act {p : Phase} {a : Act} (h : p.leaves a = true) :
    a = .reject ∨ a = .closed ∨ a = .timeout ∨ a = .fail := by
  unfold leaves at h
  split at h
  · exact .inl rfl
  · exact .inr (.inl rfl)
  · exact .inr (.inr (.inl rfl))
  · exact .inr (.inr (.inr rfl))
  · exact .inr (.inr (.inr rfl))
  · cases h

/-- A task that gives its turn up has seen its end, or has watched it for too long, or has failed
to look it up. -/
theorem Phase.Fits.leaves {turn : Turn} {p : Phase} {a : Act} {now : Time} (h : p.Fits turn)
    (hleaves : p.leaves a = true) (hdue : p.due now a = true)
    (hunfinished : (turn.after a).isUnfinished = true) :
    (a = .fail ∧ turn.isUnfinished = true) ∨ turn.startedAt + watchLimit ≤ now := by
  unfold Phase.leaves at hleaves
  split at hleaves
  · cases hunfinished
  · -- The lookup found the turn in one of its last states.
    obtain ⟨-, row, hrow, hover⟩ := h
    subst hleaves
    have hfinished : turn.isUnfinished = false := by
      rw [Turn.isUnfinished, hrow]
      simp [hover rfl]
    exact absurd (hfinished.symm.trans hunfinished) (by simp)
  · exact .inr (h.1.trans (of_decide_eq_true hdue))
  · exact .inl ⟨rfl, hunfinished⟩
  · exact .inl ⟨rfl, hunfinished⟩
  · cases hleaves

/-! ## Every run -/

structure Tracked (limits : Limits) (σ : BotState) : Prop where
  sound : σ.shared.Sound limits σ.next
  fits : ∀ pid p, σ.procs pid = some p → ∃ turn, σ.shared.turns pid = some turn ∧ p.Fits turn

theorem Message.fits (m : Message) {turn : Turn} (h : turn.state = m.state) :
    m.phase.Fits turn := by
  cases m with
  | onMessage thread => exact h
  | send thread row => exact ⟨row, h⟩

theorem Tracked.env {limits : Limits} {σ : BotState} {e : Env} {w : World}
    (h : Tracked limits σ) (he : envStep limits σ.shared e = some w) :
    Tracked limits { σ with shared := w } := by
  obtain ⟨d, -, rfl⟩ | ⟨pid, turn, old, row, -, hturn, hstate, hover, rfl⟩ |
    ⟨id, s, -, hs, hphase, rfl⟩ | ⟨id, s, wake, -, hs, hphase, -, rfl⟩ |
    ⟨id, phase, -, hphase, rfl⟩ := envStep_cases he
  · exact ⟨h.sound.tick d, h.fits⟩
  · refine ⟨h.sound.setTurn hturn rfl, fun i p hp ↦ ?_⟩
    obtain ⟨t, ht, hfits⟩ := h.fits i p hp
    by_cases hi : i = pid
    · subst hi
      cases hturn.symm.trans ht
      exact ⟨_, World.setTurn_self .., hfits.accepted hstate hover⟩
    · exact ⟨t, (World.setTurn_of_ne _ _ hi).trans ht, hfits⟩
  · exact ⟨h.sound.safetyBegins hs hphase, h.fits⟩
  · refine ⟨h.sound.safetyTimeout id s.thread, ?_⟩
    rw [(σ.shared.safetyTimeout_turns id s.thread).1]
    exact h.fits
  · exact ⟨h.sound.setSafety id hphase, h.fits⟩

theorem Tracked.spawn {limits : Limits} {σ : BotState} (h : Tracked limits σ) (m : Message) :
    Tracked limits ⟨σ.shared.receive σ.next m, Function.update σ.procs σ.next (some m.phase),
      σ.next + 1⟩ := by
  refine ⟨h.sound.receive m, fun i p hp ↦ ?_⟩
  change Function.update σ.procs σ.next (some m.phase) i = some p at hp
  by_cases hi : i = σ.next
  · subst hi
    rw [Function.update_self] at hp
    cases hp
    exact ⟨_, σ.shared.receive_turn σ.next m, m.fits rfl⟩
  · rw [Function.update_of_ne hi] at hp
    obtain ⟨turn, hturn, hfits⟩ := h.fits i p hp
    exact ⟨turn, (σ.shared.receive_turns_of_ne m hi).trans hturn, hfits⟩

theorem Tracked.exec {limits : Limits} {σ : BotState} {pid : ℕ} {p : Phase} {a : Act} {w : World}
    {q : Option Phase} (h : Tracked limits σ) (hp : σ.procs pid = some p)
    (hstep : taskStep pid σ.shared p a = some (w, q)) :
    Tracked limits ⟨w, Function.update σ.procs pid q, σ.next⟩ := by
  obtain ⟨turn, hturn, hfits⟩ := h.fits pid p hp
  have hstarted := (h.sound.turns pid turn hturn).2.2
  -- The other tasks, and this one by what it becomes.
  have hrest : ∀ w' : World, (∀ i, i ≠ pid → w'.turns i = σ.shared.turns i) →
      (∀ p', q = some p' → ∃ t, w'.turns pid = some t ∧ p'.Fits t) →
      ∀ i p', Function.update σ.procs pid q i = some p' →
        ∃ t, w'.turns i = some t ∧ p'.Fits t := by
    intro w' hw' hq i p' hp'
    by_cases hi : i = pid
    · subst hi
      rw [Function.update_self] at hp'
      exact hq p' hp'
    · rw [Function.update_of_ne hi] at hp'
      rw [hw' i hi]
      exact h.fits i p' hp'
  obtain ⟨wait, next, rfl, rfl, rfl⟩ | ⟨t, ht, -, -, heq⟩ | ⟨t, p', ht, -, hnext, rfl, rfl⟩ :=
    taskStep_cases hstep
  · refine ⟨h.sound, hrest _ (fun _ _ ↦ rfl) fun p' hp' ↦ ⟨turn, hturn, ?_⟩⟩
    obtain ⟨s, -, rfl⟩ := Option.map_eq_some_iff.mp hp'
    trivial
  · cases hturn.symm.trans ht
    cases heq
    have hset := h.sound.setTurn hturn (turn.after_toOrigin a)
    have hturns := ((σ.shared.setTurn pid (turn.after a)).noteBotMessage_turns turn.thread).1
    refine ⟨hset.noteBotMessage turn.thread, hrest _ (fun i hi ↦ ?_) fun p' hp' ↦ ?_⟩
    · rw [hturns]
      exact World.setTurn_of_ne _ _ hi
    · obtain ⟨s, -, rfl⟩ := Option.map_eq_some_iff.mp hp'
      rw [hturns]
      exact ⟨_, World.setTurn_self .., trivial⟩
  · cases hturn.symm.trans ht
    refine ⟨h.sound.setTurn hturn (turn.after_toOrigin a),
      hrest _ (fun i hi ↦ World.setTurn_of_ne _ _ hi) fun p'' hp'' ↦ ?_⟩
    cases hp''
    exact ⟨_, World.setTurn_self .., (hfits.next hstarted hnext).1⟩

theorem Tracked.step {limits : Limits} {σ τ : BotState} {a : Action Env Message Act}
    (h : Tracked limits σ) (hs : (bot limits).step σ a = some τ) : Tracked limits τ := by
  obtain ⟨e, w, -, he, rfl⟩ | ⟨m, w, p, -, hm, rfl⟩ | ⟨pid, b, p, w, q, -, hp, hb, rfl⟩ :=
    ProcessPool.Machine.step_cases hs
  · exact h.env he
  · cases hm
    exact h.spawn m
  · exact h.exec hp hb

theorem tracked_of_reachable {limits : Limits} {ok : BotState → Action Env Message Act → Prop}
    {σ : BotState} (h : (bot limits).ReachableWhen ok Fresh σ) : Tracked limits σ :=
  h.invariant (fun _ hw ↦ ⟨.fresh hw limits, fun _ _ hp ↦ nomatch hp⟩)
    fun _ _ _ _ hσ _ hs ↦ hσ.step hs

/-! ## Undisturbed runs -/

/-- No watcher takes the count of another turn: a turn is given up while its own indicator runs or
none does, and its lookup fails only after its time.  No safety timeout ends an indicator while a
turn that joined it later is unfinished and young. -/
def Undisturbed (limits : Limits) (σ : BotState) : Action Env Message Act → Prop
  | .env (.safetyFires id) => ∀ pid turn, σ.shared.turns pid = some turn → turn.indicator = id →
      pid ≠ id → turn.isUnfinished = true →
        turn.startedAt + limits.maxDuration ≤ σ.shared.now
  | .exec pid a => ∀ p turn, σ.procs pid = some p → σ.shared.turns pid = some turn →
      p.leaves a = true →
        (σ.shared.tracker.tasks turn.thread = some turn.indicator ∨
          σ.shared.tracker.pending turn.thread = 0) ∧
        (a = .fail → turn.isUnfinished = true →
          turn.startedAt + limits.maxDuration ≤ σ.shared.now)
  | _ => True

/-- The turns that are watched for an indicator. -/
def World.countedFor (w : World) (thread : ThreadId) (id : ℕ) (pid : ℕ) (p : Phase) : Bool :=
  p.isCounted && (w.turns pid).any fun turn ↦ turn.thread = thread ∧ turn.indicator = id

def countedTurns (σ : BotState) (thread : ThreadId) (id : ℕ) : Finset ℕ :=
  σ.census (σ.shared.countedFor thread id)

/-- The count of a thread is that of the turns of its indicator, and a young unfinished turn is one
of them. -/
structure Counting (limits : Limits) (σ : BotState) : Prop where
  counted : ∀ thread id, σ.shared.tracker.tasks thread = some id →
    σ.shared.tracker.pending thread = (countedTurns σ thread id).card
  young : ∀ pid turn, σ.shared.turns pid = some turn → turn.isUnfinished = true →
    σ.shared.now < turn.startedAt + limits.maxDuration →
      σ.shared.tracker.tasks turn.thread = some turn.indicator ∧
        ∃ p, σ.procs pid = some p ∧ p.isCounted = true

/-- A step that neither the tracker nor its turns notice. -/
structure Quiet (σ τ : BotState) : Prop where
  next : τ.next = σ.next
  tracker : τ.shared.tracker = σ.shared.tracker
  now : σ.shared.now ≤ τ.shared.now
  turns : ∀ pid, (τ.shared.turns pid).map Turn.toOrigin =
    (σ.shared.turns pid).map Turn.toOrigin
  unfinished : ∀ pid turn turn', σ.shared.turns pid = some turn →
    τ.shared.turns pid = some turn' → turn'.isUnfinished = true → turn.isUnfinished = true
  counted : ∀ pid, (τ.procs pid).any Phase.isCounted = (σ.procs pid).any Phase.isCounted

theorem any_countedFor (w : World) (thread : ThreadId) (id pid : ℕ) (o : Option Phase) :
    o.any (w.countedFor thread id pid) = (o.any Phase.isCounted &&
      ((w.turns pid).map Turn.toOrigin).any fun origin ↦
        origin.thread = thread ∧ origin.indicator = id) := by
  cases o with
  | none => rfl
  | some p =>
      rw [Option.any_some, Option.any_some, World.countedFor, Option.any_map]

theorem Counting.quiet {limits : Limits} {σ τ : BotState} (h : Counting limits σ)
    (hq : Quiet σ τ) : Counting limits τ := by
  constructor
  · intro thread id hid
    rw [hq.tracker] at hid ⊢
    rw [h.counted thread id hid, countedTurns, countedTurns]
    congr 1
    exact (State.census_congr hq.next fun pid ↦ by
      rw [any_countedFor, any_countedFor, hq.turns, hq.counted]).symm
  · intro pid turn' hturn' hunfinished hyoung
    have horigin := hq.turns pid
    rw [hturn'] at horigin
    obtain ⟨turn, hturn, heq⟩ := Option.map_eq_some_iff.mp horigin.symm
    rw [← heq] at hyoung ⊢
    obtain ⟨htasks, p, hp, hcounted⟩ := h.young pid turn hturn
      (hq.unfinished pid turn turn' hturn hturn' hunfinished) (hq.now.trans_lt hyoung)
    have hprocs := hq.counted pid
    rw [hp, Option.any_some, hcounted, Option.any_eq_true] at hprocs
    exact ⟨hq.tracker ▸ htasks, hprocs⟩

theorem Quiet.setTurn {σ : BotState} {pid : ℕ} {turn turn' : Turn} {procs : ℕ → Option Phase}
    (hturn : σ.shared.turns pid = some turn) (horigin : turn'.toOrigin = turn.toOrigin)
    (hunfinished : turn'.isUnfinished = true → turn.isUnfinished = true)
    (hprocs : ∀ i, (procs i).any Phase.isCounted = (σ.procs i).any Phase.isCounted) :
    Quiet σ ⟨σ.shared.setTurn pid turn', procs, σ.next⟩ := by
  refine ⟨rfl, rfl, Nat.le_refl _, fun i ↦ ?_, fun i t t' ht ht' hunf ↦ ?_, hprocs⟩
  · by_cases hi : i = pid
    · subst hi
      simp [hturn, horigin]
    · rw [World.setTurn_of_ne _ _ hi]
  · by_cases hi : i = pid
    · subst hi
      cases (World.setTurn_self ..).symm.trans ht'
      cases hturn.symm.trans ht
      exact hunfinished hunf
    · rw [World.setTurn_of_ne _ _ hi] at ht'
      cases ht.symm.trans ht'
      exact hunf

theorem Quiet.setSafety (σ : BotState) (id : ℕ) (phase : SafetyPhase) :
    Quiet σ { σ with shared := σ.shared.setSafety id phase } where
  next := rfl
  tracker := rfl
  now := Nat.le_refl _
  turns _ := rfl
  unfinished _ _ _ ht ht' h := by
    cases ht.symm.trans ht'
    exact h
  counted _ := rfl

theorem Quiet.tick (σ : BotState) (d : ℕ) :
    Quiet σ { σ with shared := { σ.shared with now := σ.shared.now + d } } where
  next := rfl
  tracker := rfl
  now := Nat.le_add_right _ _
  turns _ := rfl
  unfinished _ _ _ ht ht' h := by
    cases ht.symm.trans ht'
    exact h
  counted _ := rfl

/-! ## The steps that change the tracker -/

/-- Under the condition, the turns that a safety timeout leaves behind are over or old. -/
theorem Counting.safetyFires {limits : Limits} {σ : BotState} (h : Counting limits σ)
    (ht : Tracked limits σ) {id : ℕ} {s : Safety} {wake : Time}
    (hs : σ.shared.safeties id = some s) (hphase : s.phase = .sleeping wake)
    (hwake : wake ≤ σ.shared.now) (hok : Undisturbed limits σ (.env (.safetyFires id))) :
    Counting limits { σ with shared := σ.shared.safetyTimeout id s.thread } := by
  obtain ⟨hid, first, hfirst, hdeadline⟩ := ht.sound.live id s hs (by rw [hphase]; rfl)
  obtain ⟨hturns, hnow⟩ := σ.shared.safetyTimeout_turns id s.thread
  have htracker : (σ.shared.safetyTimeout id s.thread).tracker =
      σ.shared.tracker.pop s.thread := by
    obtain ⟨hidle, -⟩ | ⟨w', hpops, heq⟩ := σ.shared.safetyTimeout_cases id s.thread
    · rw [Tracker.isRunning_iff.mpr ⟨id, hid⟩] at hidle
      cases hidle
    · rw [heq]
      exact hpops.tracker
  have hsettled : ∀ pid turn, σ.shared.turns pid = some turn → turn.isUnfinished = true →
      turn.indicator = id → turn.startedAt + limits.maxDuration ≤ σ.shared.now := by
    intro pid turn hturn hunfinished hindicator
    by_cases hpid : pid = id
    · subst hpid
      cases hfirst.symm.trans hturn
      exact (hdeadline wake hphase).trans hwake
    · exact hok pid turn hturn hindicator hpid hunfinished
  constructor
  · intro thread id' hid'
    change (σ.shared.safetyTimeout id s.thread).tracker.tasks thread = some id' at hid'
    rw [htracker] at hid'
    obtain ⟨hthread, hid'⟩ := Tracker.tasks_pop_eq_some.mp hid'
    change (σ.shared.safetyTimeout id s.thread).tracker.pending thread = _
    rw [htracker, Tracker.pending_pop, Function.update_of_ne hthread, h.counted thread id' hid',
      countedTurns, countedTurns]
    congr 1
    exact (State.census_congr rfl fun pid ↦ by
      rw [any_countedFor, any_countedFor, hturns]).symm
  · intro pid turn hturn hunfinished hyoung
    change (σ.shared.safetyTimeout id s.thread).turns pid = some turn at hturn
    change (σ.shared.safetyTimeout id s.thread).now < _ at hyoung
    rw [hturns] at hturn
    rw [hnow] at hyoung
    obtain ⟨htasks, hproc⟩ := h.young pid turn hturn hunfinished hyoung
    have hthread : turn.thread ≠ s.thread := by
      intro heq
      rw [heq, hid, Option.some.injEq] at htasks
      exact absurd (hsettled pid turn hturn hunfinished htasks.symm) (Nat.not_le.mpr hyoung)
    refine ⟨?_, hproc⟩
    change (σ.shared.safetyTimeout id s.thread).tracker.tasks turn.thread = _
    rw [htracker]
    exact Tracker.tasks_pop_eq_some.mpr ⟨hthread, htasks⟩

theorem Message.phase_isCounted (m : Message) : m.phase.isCounted = true := by
  cases m <;> rfl

/-- The task of a message is counted for its own thread and indicator only. -/
theorem card_countedTurns_receive (σ : BotState) (m : Message) (thread : ThreadId) (id : ℕ) :
    (countedTurns ⟨σ.shared.receive σ.next m, Function.update σ.procs σ.next (some m.phase),
      σ.next + 1⟩ thread id).card = (countedTurns σ thread id).card +
        if m.thread = thread ∧ (σ.shared.tracker.tasks m.thread).getD σ.next = id then 1
        else 0 := by
  have hold : ∀ pid < σ.next, (Function.update σ.procs σ.next (some m.phase) pid).any
      ((σ.shared.receive σ.next m).countedFor thread id pid) =
        (σ.procs pid).any (σ.shared.countedFor thread id pid) := by
    intro pid hpid
    rw [any_countedFor, any_countedFor, σ.shared.receive_turns_of_ne m (Nat.ne_of_lt hpid),
      Function.update_of_ne (Nat.ne_of_lt hpid)]
  rw [countedTurns, countedTurns, State.card_census_spawn rfl hold, any_countedFor,
    σ.shared.receive_turn σ.next m]
  simp only [Function.update_self, Option.any_some, m.phase_isCounted, Option.map_some,
    Bool.true_and, decide_eq_true_eq]

/-- No turn has been counted for an indicator that is new. -/
theorem Tracked.countedTurns_next {limits : Limits} {σ : BotState} (h : Tracked limits σ)
    (thread : ThreadId) : countedTurns σ thread σ.next = ∅ := by
  rw [Finset.eq_empty_iff_forall_notMem]
  intro pid hpid
  obtain ⟨-, hany⟩ := Finset.mem_filter.mp hpid
  rw [any_countedFor, Bool.and_eq_true] at hany
  obtain ⟨origin, horigin, hboth⟩ := (Option.any_eq_true _ _).mp hany.2
  obtain ⟨turn, hturn, rfl⟩ := Option.map_eq_some_iff.mp horigin
  have hlt := (h.sound.turns pid turn hturn).2.1
  have hindicator := (of_decide_eq_true hboth).2
  omega

theorem Counting.receive {limits : Limits} {σ : BotState} (h : Counting limits σ)
    (ht : Tracked limits σ) (m : Message) :
    Counting limits ⟨σ.shared.receive σ.next m,
      Function.update σ.procs σ.next (some m.phase), σ.next + 1⟩ := by
  have htasks := σ.shared.receive_tasks σ.next m
  have hpending := σ.shared.receive_pending σ.next m
  constructor
  · intro thread id hid
    rw [card_countedTurns_receive]
    change (σ.shared.receive σ.next m).tracker.tasks thread = some id at hid
    change (σ.shared.receive σ.next m).tracker.pending thread = _
    rw [htasks] at hid
    rw [hpending]
    by_cases hthread : thread = m.thread
    · subst hthread
      rw [Function.update_self, Option.some.injEq] at hid
      rw [Function.update_self, if_pos ⟨rfl, hid⟩]
      congr 1
      cases hcurrent : σ.shared.tracker.tasks m.thread with
      | some id' =>
          rw [hcurrent, Option.getD_some] at hid
          exact h.counted m.thread id (hid ▸ hcurrent)
      | none =>
          rw [hcurrent, Option.getD_none] at hid
          rw [← hid, ht.countedTurns_next, Finset.card_empty]
          have hidle : σ.shared.tracker.isRunning m.thread ≠ true := by
            rw [Tracker.isRunning, hcurrent]
            exact Bool.false_ne_true
          exact Nat.eq_zero_of_not_pos fun hpos ↦
            hidle ((ht.sound.agrees.running m.thread).mpr hpos)
    · rw [Function.update_of_ne hthread] at hid
      rw [Function.update_of_ne hthread, if_neg fun hboth ↦ hthread hboth.1.symm,
        h.counted thread id hid, Nat.add_zero]
  · intro pid turn hturn hunfinished hyoung
    by_cases hpid : pid = σ.next
    · subst hpid
      cases (σ.shared.receive_turn σ.next m).symm.trans hturn
      refine ⟨?_, m.phase, Function.update_self .., m.phase_isCounted⟩
      change (σ.shared.receive σ.next m).tracker.tasks m.thread = _
      rw [htasks, Function.update_self]
    · obtain ⟨hid, p, hp, hcounted⟩ := h.young pid turn
        ((σ.shared.receive_turns_of_ne m hpid).symm.trans hturn) hunfinished hyoung
      exact ⟨σ.shared.receive_keeps σ.next m hid, p,
        (Function.update_of_ne hpid ..).trans hp, hcounted⟩

/-- A watched turn is counted for the indicator that it came with. -/
theorem mem_countedTurns {σ : BotState} {pid : ℕ} {p : Phase} {turn : Turn}
    (hlt : pid < σ.next) (hp : σ.procs pid = some p) (hcounted : p.isCounted = true)
    (hturn : σ.shared.turns pid = some turn) (thread : ThreadId) (id : ℕ) :
    pid ∈ countedTurns σ thread id ↔ turn.thread = thread ∧ turn.indicator = id := by
  rw [countedTurns, State.mem_census hlt hp, World.countedFor, hcounted, hturn]
  simp

/-- A turn that is given up is no longer counted. -/
theorem countedTurns_leave {σ : BotState} {pid : ℕ} {turn : Turn} {w : World}
    (hturns : w.turns = (σ.shared.setTurn pid turn).turns) (q : Option Stopping)
    (thread : ThreadId) (id : ℕ) :
    countedTurns ⟨w, Function.update σ.procs pid (q.map Phase.stopping), σ.next⟩ thread id =
      (countedTurns σ thread id).erase pid := by
  refine State.census_erase rfl ?_ fun i hi ↦ ?_
  · change (Function.update σ.procs pid (q.map Phase.stopping) pid).any _ = false
    rw [Function.update_self]
    cases q <;> rfl
  · change (Function.update σ.procs pid (q.map Phase.stopping) i).any _ = _
    rw [any_countedFor, any_countedFor, Function.update_of_ne hi]
    change (_ && ((w.turns i).map Turn.toOrigin).any _) = _
    rw [hturns, World.setTurn_of_ne _ _ hi]

section Leave

variable {limits : Limits} {σ : BotState} {pid : ℕ} {turn : Turn} {w : World}

/-- `note_bot_message` takes the count of its own turn. -/
theorem Counting.noteBotMessage_counted (h : Counting limits σ) (ht : Tracked limits σ)
    (hmem : ∀ thread id, pid ∈ countedTurns σ thread id ↔
      turn.thread = thread ∧ turn.indicator = id)
    (hindicator : σ.shared.tracker.tasks turn.thread = some turn.indicator ∨
      σ.shared.tracker.pending turn.thread = 0)
    (hw : w.tracker = σ.shared.tracker) {thread : ThreadId} {id : ℕ}
    (hid : (w.noteBotMessage turn.thread).1.tracker.tasks thread = some id) :
    (w.noteBotMessage turn.thread).1.tracker.pending thread =
      ((countedTurns σ thread id).erase pid).card := by
  have hother : thread ≠ turn.thread → σ.shared.tracker.tasks thread = some id →
      σ.shared.tracker.pending thread = ((countedTurns σ thread id).erase pid).card := by
    intro hthread htasks
    rw [Finset.erase_eq_of_notMem fun hin ↦ hthread ((hmem thread id).mp hin).1.symm]
    exact h.counted thread id htasks
  obtain ⟨hzero, heq⟩ | ⟨n, hpending, heq⟩ | ⟨hone, hpops⟩ := w.noteBotMessage_cases turn.thread
  · rw [heq, hw] at hid ⊢
    rw [hw] at hzero
    refine hother (fun hthread ↦ ?_) hid
    rw [hthread, ht.sound.agrees.tasks_eq_none hzero] at hid
    cases hid
  · rw [heq] at hid ⊢
    change w.tracker.tasks thread = some id at hid
    change (w.tracker.setCount turn.thread (n + 1)).pending thread = _
    rw [hw] at hid hpending ⊢
    rw [Tracker.pending_setCount]
    by_cases hthread : thread = turn.thread
    · subst hthread
      have hown : turn.indicator = id := by
        rw [hindicator.resolve_right (by omega)] at hid
        exact Option.some.inj hid
      have hcount := h.counted _ _ hid
      rw [Function.update_self, Finset.card_erase_of_mem ((hmem _ _).mpr ⟨rfl, hown⟩), ← hcount,
        hpending]
      rfl
    · rw [Function.update_of_ne hthread]
      exact hother hthread hid
  · rw [hpops.tracker, hw] at hid ⊢
    obtain ⟨hthread, htasks⟩ := Tracker.tasks_pop_eq_some.mp hid
    rw [Tracker.pending_pop, Function.update_of_ne hthread]
    exact hother hthread htasks

/-- `note_bot_message` leaves the indicators of other young turns alone. -/
theorem Counting.noteBotMessage_young (h : Counting limits σ) (ht : Tracked limits σ)
    (hmem : ∀ thread id, pid ∈ countedTurns σ thread id ↔
      turn.thread = thread ∧ turn.indicator = id)
    (hindicator : σ.shared.tracker.tasks turn.thread = some turn.indicator ∨
      σ.shared.tracker.pending turn.thread = 0)
    (hw : w.tracker = σ.shared.tracker) {i : ℕ} {t : Turn} (hi : i ≠ pid)
    (hti : σ.shared.turns i = some t) (hunfinished : t.isUnfinished = true)
    (hyoung : σ.shared.now < t.startedAt + limits.maxDuration) :
    (w.noteBotMessage turn.thread).1.tracker.tasks t.thread = some t.indicator := by
  obtain ⟨htasks, p, hp, hcounted⟩ := h.young i t hti hunfinished hyoung
  obtain ⟨-, heq⟩ | ⟨n, -, heq⟩ | ⟨hone, hpops⟩ := w.noteBotMessage_cases turn.thread
  · rw [heq, hw]
    exact htasks
  · rw [heq]
    change w.tracker.tasks t.thread = _
    rw [hw]
    exact htasks
  · rw [hpops.tracker, hw]
    rw [hw] at hone
    refine Tracker.tasks_pop_eq_some.mpr ⟨fun hthread ↦ hi ?_, htasks⟩
    -- Both turns would be the only one that is counted.
    have hown := hindicator.resolve_right (by omega)
    have hcard := h.counted _ _ hown
    rw [hthread] at htasks
    have hother := (mem_countedTurns (ht.sound.turns i t hti).1 hp hcounted hti turn.thread
      turn.indicator).mpr ⟨hthread, Option.some.inj (htasks.symm.trans hown)⟩
    exact Finset.card_le_one.mp (by omega) i hother pid ((hmem _ _).mpr ⟨rfl, rfl⟩)

theorem Counting.leave (h : Counting limits σ) (ht : Tracked limits σ) {p : Phase} {a : Act}
    {q : Option Phase} (hp : σ.procs pid = some p) (hturn : σ.shared.turns pid = some turn)
    (hleaves : p.leaves a = true) (hdue : p.due σ.shared.now a = true)
    (hw : (w, q) = (σ.shared.setTurn pid (turn.after a)).leave turn.thread)
    (hok : Undisturbed limits σ (.exec pid a)) :
    Counting limits ⟨w, Function.update σ.procs pid q, σ.next⟩ := by
  obtain ⟨hindicator, hfail⟩ := hok p turn hp hturn hleaves
  obtain ⟨t, htturn, hfits⟩ := ht.fits pid p hp
  cases hturn.symm.trans htturn
  -- The turn itself is over, rejected or old.
  have hsettled : (turn.after a).isUnfinished = true →
      turn.startedAt + limits.maxDuration ≤ σ.shared.now := by
    intro hunfinished
    rcases hfits.leaves hleaves hdue hunfinished with ⟨hf, hunf⟩ | hlong
    · exact hfail hf hunf
    · exact (Nat.add_le_add_left limits.max_le _).trans hlong
  have hmem := mem_countedTurns (ht.sound.turns pid turn hturn).1 hp
    (Phase.leaves_isCounted hleaves) hturn
  have htracker : (σ.shared.setTurn pid (turn.after a)).tracker = σ.shared.tracker := rfl
  cases hw
  obtain ⟨hturns, hnow⟩ :=
    (σ.shared.setTurn pid (turn.after a)).noteBotMessage_turns turn.thread
  constructor
  · intro thread id hid
    rw [countedTurns_leave hturns]
    exact h.noteBotMessage_counted ht hmem hindicator htracker hid
  · intro i t hti hunfinished hyoung
    change ((σ.shared.setTurn pid (turn.after a)).noteBotMessage turn.thread).1.turns i = _ at hti
    change ((σ.shared.setTurn pid (turn.after a)).noteBotMessage turn.thread).1.now < _ at hyoung
    rw [hturns] at hti
    rw [hnow] at hyoung
    by_cases hi : i = pid
    · subst hi
      cases (World.setTurn_self ..).symm.trans hti
      rw [turn.after_toOrigin a] at hyoung
      exact absurd (hsettled hunfinished) (Nat.not_le.mpr hyoung)
    · rw [World.setTurn_of_ne _ _ hi] at hti
      obtain ⟨-, p', hp', hcounted⟩ := h.young i t hti hunfinished hyoung
      exact ⟨h.noteBotMessage_young ht hmem hindicator htracker hi hti hunfinished hyoung, p',
        (Function.update_of_ne hi ..).trans hp', hcounted⟩

end Leave

/-! ## Undisturbed runs -/

theorem Counting.env {limits : Limits} {σ : BotState} {e : Env} {w : World}
    (h : Counting limits σ) (ht : Tracked limits σ) (hok : Undisturbed limits σ (.env e))
    (he : envStep limits σ.shared e = some w) : Counting limits { σ with shared := w } := by
  obtain ⟨d, -, rfl⟩ | ⟨pid, turn, old, row, -, hturn, hstate, hover, rfl⟩ |
    ⟨id, s, -, -, -, rfl⟩ | ⟨id, s, wake, rfl, hs, hphase, hwake, rfl⟩ |
    ⟨id, phase, -, -, rfl⟩ := envStep_cases he
  · exact h.quiet (.tick σ d)
  · refine h.quiet (.setTurn hturn rfl (fun hunfinished ↦ ?_) fun _ ↦ rfl)
    -- A turn that is over stays over.
    rw [Turn.isUnfinished, hstate]
    by_contra hnot
    have hold : rowOver old = true := by simpa using hnot
    simp [Turn.isUnfinished, hover hold] at hunfinished
  · exact h.quiet (.setSafety σ id _)
  · exact h.safetyFires ht hs hphase hwake hok
  · exact h.quiet (.setSafety σ id phase)

theorem Counting.exec {limits : Limits} {σ : BotState} {pid : ℕ} {p : Phase} {a : Act} {w : World}
    {q : Option Phase} (h : Counting limits σ) (ht : Tracked limits σ)
    (hok : Undisturbed limits σ (.exec pid a)) (hp : σ.procs pid = some p)
    (hstep : taskStep pid σ.shared p a = some (w, q)) :
    Counting limits ⟨w, Function.update σ.procs pid q, σ.next⟩ := by
  obtain ⟨turn, hturn, hfits⟩ := ht.fits pid p hp
  have hprocs : q.any Phase.isCounted = p.isCounted → ∀ i,
      (Function.update σ.procs pid q i).any Phase.isCounted =
        (σ.procs i).any Phase.isCounted := by
    intro hq i
    by_cases hi : i = pid
    · subst hi
      rw [Function.update_self, hp, Option.any_some, hq]
    · rw [Function.update_of_ne hi]
  obtain ⟨wait, next, rfl, rfl, rfl⟩ | ⟨t, hti, hleaves, hdue, hw⟩ |
    ⟨t, p', hti, -, hnext, rfl, rfl⟩ := taskStep_cases hstep
  · refine h.quiet ⟨rfl, rfl, Nat.le_refl _, fun _ ↦ rfl, fun _ _ _ ht ht' hunf ↦ ?_,
      hprocs (by cases next <;> rfl)⟩
    cases ht.symm.trans ht'
    exact hunf
  · exact h.leave ht hp hti hleaves hdue hw hok
  · cases hturn.symm.trans hti
    obtain ⟨hcounted, hcounted'⟩ := Phase.next_isCounted hnext
    have hstarted := (ht.sound.turns pid turn hturn).2.2
    exact h.quiet (.setTurn hturn (turn.after_toOrigin a) (hfits.next hstarted hnext).2
      (hprocs (hcounted'.trans hcounted.symm)))

theorem Counting.step {limits : Limits} {σ τ : BotState} {a : Action Env Message Act}
    (h : Counting limits σ) (ht : Tracked limits σ) (hok : Undisturbed limits σ a)
    (hs : (bot limits).step σ a = some τ) : Counting limits τ := by
  obtain ⟨e, w, rfl, he, rfl⟩ | ⟨m, w, p, -, hm, rfl⟩ | ⟨pid, b, p, w, q, rfl, hp, hb, rfl⟩ :=
    ProcessPool.Machine.step_cases hs
  · exact h.env ht hok he
  · cases hm
    exact h.receive ht m
  · exact h.exec ht hok hp hb

theorem Counting.start (limits : Limits) {w : World} (h : Fresh w) :
    Counting limits (.start w) := by
  obtain ⟨htracker, -, hturns⟩ := h
  refine ⟨fun thread id hid ↦ ?_, fun pid turn hturn ↦ ?_⟩
  · change w.tracker.tasks thread = some id at hid
    rw [htracker] at hid
    cases hid
  · cases (hturns pid).symm.trans hturn

theorem counting_of_reachable {limits : Limits} {σ : BotState}
    (h : (bot limits).ReachableWhen (Undisturbed limits) Fresh σ) : Counting limits σ :=
  h.invariant (fun _ hw ↦ .start limits hw)
    fun _ _ _ hreach hσ hok hs ↦ hσ.step (tracked_of_reachable hreach) hok hs

/-! ## What the step that stops an indicator means -/

/-- The step ends the indicator of `thread`. -/
def Stops (σ τ : BotState) (thread : ThreadId) : Prop :=
  σ.shared.tracker.isRunning thread = true ∧ τ.shared.tracker.isRunning thread = false

/-- If the step stops an indicator, then no unfinished turn of the thread is young, and the step is
not that of a turn from before a safety timeout that the indicator comes after. -/
structure Attributed (limits : Limits) (σ : BotState) (a : Action Env Message Act)
    (τ : BotState) : Prop where
  young : ∀ thread, Stops σ τ thread → ∀ pid turn, τ.shared.turns pid = some turn →
    turn.thread = thread → turn.isUnfinished = true →
      turn.startedAt + limits.maxDuration ≤ τ.shared.now
  late : ∀ thread, Stops σ τ thread → ∀ pid act, a = .exec pid act →
    ∀ turn, σ.shared.turns pid = some turn → ∀ pid' turn', σ.shared.turns pid' = some turn' →
      turn'.thread = thread → σ.shared.tracker.tasks thread = some turn'.indicator →
        turn'.safetiesBefore ≤ turn.safetiesBefore

/-- The tracker at a suspension point. -/
def Consistent (σ : BotState) : Prop :=
  ∀ thread, σ.shared.tracker.isRunning thread = true ↔ 0 < σ.shared.tracker.pending thread

theorem consistent_of_reachable {limits : Limits} {σ : BotState}
    (h : (bot limits).Reachable Fresh σ) : Consistent σ :=
  (tracked_of_reachable h).sound.agrees.running

/-- Only `note_bot_message` stops an indicator in a step of the task of a turn. -/
theorem leaves_of_stops {limits : Limits} {σ τ : BotState} {pid : ℕ} {act : Act} {turn : Turn}
    {thread : ThreadId} (hs : (bot limits).step σ (.exec pid act) = some τ)
    (hstops : Stops σ τ thread) (hturn : σ.shared.turns pid = some turn) :
    ∃ p, σ.procs pid = some p ∧ p.leaves act = true ∧ turn.thread = thread := by
  obtain ⟨hrunning, hidle⟩ := hstops
  obtain ⟨p, q, hp, hstep, -⟩ := ProcessPool.Machine.step_exec hs
  refine ⟨p, hp, ?_⟩
  obtain ⟨wait, next, rfl, heq, rfl⟩ | ⟨t, hti, hleaves, -, hw⟩ | ⟨t, p', hti, -, -, heq, rfl⟩ :=
    taskStep_cases hstep
  · rw [heq, hrunning] at hidle
    cases hidle
  · cases hturn.symm.trans hti
    refine ⟨hleaves, ?_⟩
    by_contra hthread
    have hshared : τ.shared =
        ((σ.shared.setTurn pid (turn.after act)).noteBotMessage turn.thread).1 :=
      congrArg Prod.fst hw
    have hkept : τ.shared.tracker.isRunning thread = σ.shared.tracker.isRunning thread := by
      rw [hshared]
      obtain ⟨-, heq⟩ | ⟨n, -, heq⟩ | ⟨-, hpops⟩ :=
        (σ.shared.setTurn pid (turn.after act)).noteBotMessage_cases turn.thread
      · rw [heq]
        rfl
      · rw [heq]
        rfl
      · rw [hpops.tracker]
        exact congrArg Option.isSome (Function.update_of_ne (Ne.symm hthread) ..)
    rw [hkept, hrunning] at hidle
    cases hidle
  · rw [heq] at hidle
    cases hrunning.symm.trans hidle

/-- In every run an indicator runs exactly while the count of its thread is positive.  In a run
whose steps all meet the condition, no step stops an indicator while a turn of the thread is
unfinished and young, and no turn from before a safety timeout ends the indicator of one from
after it. -/
theorem typing_attributed (limits : Limits) :
    (∀ σ, (bot limits).Reachable Fresh σ → Consistent σ) ∧
    ∀ σ a τ, (bot limits).ReachableWhen (Undisturbed limits) Fresh σ → Undisturbed limits σ a →
      (bot limits).step σ a = some τ → Attributed limits σ a τ := by
  refine ⟨fun _ ↦ consistent_of_reachable, fun σ a τ hσ hok hs ↦ ⟨?_, ?_⟩⟩
  · rintro thread ⟨-, hidle⟩ pid turn hturn rfl hunfinished
    by_contra hyoung
    obtain ⟨hid, -⟩ := (counting_of_reachable (hσ.step hok hs)).young pid turn hturn hunfinished
      (Nat.not_le.mp hyoung)
    rw [Tracker.isRunning_iff.mpr ⟨_, hid⟩] at hidle
    cases hidle
  · rintro thread hstops pid act rfl turn hturn pid' turn' hturn' rfl hid
    have hsound := (tracked_of_reachable hσ).sound
    obtain ⟨p, hp, hleaves, hthread⟩ := leaves_of_stops hs hstops hturn
    have hpos := hsound.agrees.pending_pos hid
    rw [← hthread] at hpos
    have hown := (hok p turn hp hturn hleaves).1.resolve_right (by omega)
    rw [hsound.stops pid turn hturn hown, hsound.stops pid' turn' hturn' hid, hthread]

/-- The bot at its start. -/
def idleWorld : World where
  now := 0
  tracker := .empty
  safeties _ := none
  turns _ := none
  safetyStops _ := 0

theorem fresh_idleWorld : Fresh idleWorld := ⟨rfl, fun _ ↦ rfl, fun _ ↦ rfl⟩

/-- A turn that stays queued until its safety timeout. -/
def queuedRun : List (Action Env Message Act) :=
  [.spawn (.onMessage 7), .env (.safetyBegins 0), .exec 0 .commit, .env (.tick 2000),
    .exec 0 .returns, .exec 0 .start, .env (.tick 358000)]

def queuedState : BotState :=
  ((bot .default).run (.start idleWorld) queuedRun).get (by decide +kernel)

def silentState : BotState :=
  ((bot .default).step queuedState (.env (.safetyFires 0))).get (by decide +kernel)

def overdueState : BotState :=
  ((bot .default).step silentState (.env (.tick 2000))).get (by decide +kernel)

/-- The watcher of the turn has left as well. -/
def unwatchedState : BotState :=
  ((bot .default).step overdueState (.exec 0 .timeout)).get (by decide +kernel)

/-- A second turn, whose reply is delivered after a second. -/
def answeredRun : List (Action Env Message Act) :=
  [.spawn (.onMessage 7), .env (.safetyBegins 1), .exec 1 .commit, .exec 1 .returns,
    .exec 1 .start, .env (.tick 1000), .env (.row 1 (some .delivered)), .exec 1 .read]

def answeredState : BotState :=
  ((bot .default).run unwatchedState answeredRun).get (by decide +kernel)

def deliveredState : BotState :=
  ((bot .default).step answeredState (.exec 1 .closed)).get (by decide +kernel)

/-- Such a step does not call `note_bot_message`. -/
theorem undisturbed_exec (limits : Limits) (σ : BotState) (pid : ℕ) {act : Act}
    (h : act ∉ [Act.reject, .closed, .timeout, .fail]) : Undisturbed limits σ (.exec pid act) := by
  intro p turn _ _ hleaves
  rcases Phase.leaves_act hleaves with rfl | rfl | rfl | rfl
  all_goals exact absurd (by decide) h

theorem queuedState_undisturbed :
    (bot .default).ReachableWhen (Undisturbed .default) Fresh queuedState := by
  have hrun : (bot .default).run (.start idleWorld) queuedRun = some queuedState :=
    (Option.some_get _).symm
  refine ⟨idleWorld, fresh_idleWorld, .of_run (fun a ha ρ ↦ ?_) hrun⟩
  simp only [queuedRun, List.mem_cons, List.not_mem_nil, or_false] at ha
  rcases ha with rfl | rfl | rfl | rfl | rfl | rfl | rfl
  all_goals first
    | trivial
    | exact undisturbed_exec _ _ _ (by decide)

theorem unwatchedState_undisturbed :
    (bot .default).ReachableWhen (Undisturbed .default) Fresh unwatchedState := by
  have hfires : Undisturbed .default queuedState (.env (.safetyFires 0)) := by
    intro pid turn hturn _ hne _
    have hlt := ((tracked_of_reachable queuedState_undisturbed).sound.turns pid turn hturn).1
    have hnext : queuedState.next = 1 := by decide +kernel
    rw [hnext] at hlt
    exact absurd (Nat.lt_one_iff.mp hlt) hne
  have htimeout : Undisturbed .default overdueState (.exec 0 .timeout) := by
    intro p turn _ hturn _
    have hthread : (overdueState.shared.turns 0).map (·.thread) = some 7 := by decide +kernel
    rw [hturn, Option.map_some, Option.some.injEq] at hthread
    refine ⟨.inr ?_, fun hfail ↦ nomatch hfail⟩
    rw [hthread]
    decide +kernel
  have hsilent : (bot .default).ReachableWhen (Undisturbed .default) Fresh silentState :=
    queuedState_undisturbed.step hfires (Option.some_get _).symm
  have hoverdue : (bot .default).ReachableWhen (Undisturbed .default) Fresh overdueState :=
    hsilent.step (a := .env (.tick 2000)) trivial (Option.some_get _).symm
  exact hoverdue.step htimeout (Option.some_get _).symm

theorem answeredState_undisturbed :
    (bot .default).ReachableWhen (Undisturbed .default) Fresh answeredState := by
  have hrun : (bot .default).run unwatchedState answeredRun = some answeredState :=
    (Option.some_get _).symm
  refine unwatchedState_undisturbed.reaches (.of_run (fun a ha ρ ↦ ?_) hrun)
  simp only [answeredRun, List.mem_cons, List.not_mem_nil, or_false] at ha
  rcases ha with rfl | rfl | rfl | rfl | rfl | rfl | rfl | rfl
  all_goals first
    | trivial
    | exact undisturbed_exec _ _ _ (by decide)

/-- The first turn is still unfinished when the indicator of the second one stops, but old. -/
theorem typing_attributed_delivered :
    Stops answeredState deliveredState 7 ∧
      (deliveredState.shared.turns 0).any Turn.isUnfinished = true ∧
      Attributed .default answeredState (.exec 1 .closed) deliveredState ∧
      Consistent deliveredState := by
  have hclosed : Undisturbed .default answeredState (.exec 1 .closed) := by
    intro p turn _ hturn _
    have horigin : (answeredState.shared.turns 1).map (fun turn ↦ (turn.thread, turn.indicator)) =
        some (7, 1) := by decide +kernel
    rw [hturn, Option.map_some, Option.some.injEq, Prod.mk.injEq] at horigin
    refine ⟨.inl ?_, fun hfail ↦ nomatch hfail⟩
    rw [horigin.1, horigin.2]
    decide +kernel
  have hs : (bot .default).step answeredState (.exec 1 .closed) = some deliveredState :=
    (Option.some_get _).symm
  obtain ⟨hconsistent, hattributed⟩ := typing_attributed .default
  exact ⟨⟨by decide +kernel, by decide +kernel⟩, by decide +kernel,
    hattributed _ _ _ answeredState_undisturbed hclosed hs,
    hconsistent _ (answeredState_undisturbed.step hclosed hs).reachable⟩

/-- Two messages, the second one after the safety timeout of the first, whose watcher is late. -/
def lateWatcher : List (Action Env Message Act) :=
  [.spawn (.onMessage 7), .env (.safetyBegins 0), .exec 0 .commit, .env (.tick 2000),
    .exec 0 .returns, .exec 0 .start, .exec 0 .read, .env (.tick 358000), .env (.safetyFires 0),
    .env (.tick 1000), .spawn (.onMessage 7), .env (.tick 1000)]

/-- Two messages, the second one ten seconds before the safety timeout of the first. -/
def secondTurn : List (Action Env Message Act) :=
  [.spawn (.onMessage 7), .env (.safetyBegins 0), .env (.tick 350000), .spawn (.onMessage 7),
    .env (.tick 10000)]

/-- The watcher of the first turn ends the indicator of a second one that is a second old, and the
safety timeout of the first turn that of one that is ten seconds old. -/
theorem indicator_of_other_turn_stopped :
    (∃ σ τ, (bot .default).run (.start idleWorld) lateWatcher = some σ ∧
      (bot .default).step σ (.exec 0 .timeout) = some τ ∧ Stops σ τ 7 ∧
      ∃ turn, τ.shared.turns 1 = some turn ∧ turn.isUnfinished = true ∧
        turn.startedAt + 1000 = τ.shared.now) ∧
    (∃ σ τ, (bot .default).run (.start idleWorld) secondTurn = some σ ∧
      (bot .default).step σ (.env (.safetyFires 0)) = some τ ∧ Stops σ τ 7 ∧
      ∃ turn, τ.shared.turns 1 = some turn ∧ turn.isUnfinished = true ∧
        turn.startedAt + 10000 = τ.shared.now) ∧
    ¬ ∀ (limits : Limits) (σ : BotState) a τ, (bot limits).Reachable Fresh σ →
      (bot limits).step σ a = some τ → Attributed limits σ a τ := by
  have hobserve : ∀ run a age, ((bot .default).run (.start idleWorld) run).bind (fun σ ↦
      ((bot .default).step σ a).bind fun τ ↦ (τ.shared.turns 1).map fun turn ↦
        (σ.shared.tracker.isRunning 7, τ.shared.tracker.isRunning 7, turn.isUnfinished,
          decide (turn.thread = 7 ∧ turn.startedAt + age = τ.shared.now))) =
        some (true, false, true, true) →
      ∃ σ τ, (bot .default).run (.start idleWorld) run = some σ ∧
        (bot .default).step σ a = some τ ∧ Stops σ τ 7 ∧
        ∃ turn, τ.shared.turns 1 = some turn ∧ turn.isUnfinished = true ∧
          turn.thread = 7 ∧ turn.startedAt + age = τ.shared.now := by
    intro run a age hview
    obtain ⟨σ, hrun, hview⟩ := Option.bind_eq_some_iff.mp hview
    obtain ⟨τ, hs, hview⟩ := Option.bind_eq_some_iff.mp hview
    obtain ⟨turn, hturn, hview⟩ := Option.map_eq_some_iff.mp hview
    simp only [Prod.mk.injEq, decide_eq_true_eq] at hview
    obtain ⟨hrunning, hidle, hunfinished, hthread, hage⟩ := hview
    exact ⟨σ, τ, hrun, hs, ⟨hrunning, hidle⟩, turn, hturn, hunfinished, hthread, hage⟩
  obtain ⟨σ, τ, hrun, hs, hstops, turn, hturn, hunfinished, hthread, hage⟩ :=
    hobserve lateWatcher (.exec 0 .timeout) 1000 (by decide +kernel)
  refine ⟨⟨σ, τ, hrun, hs, hstops, turn, hturn, hunfinished, hage⟩, ?_, fun hall ↦ ?_⟩
  · obtain ⟨σ, τ, hrun, hs, hstops, turn, hturn, hunfinished, -, hage⟩ :=
      hobserve secondTurn (.env (.safetyFires 0)) 10000 (by decide +kernel)
    exact ⟨σ, τ, hrun, hs, hstops, turn, hturn, hunfinished, hage⟩
  · have hold := (hall .default σ _ τ (ProcessPool.Machine.reachable_of_run fresh_idleWorld hrun)
      hs).young 7 hstops 1 turn hturn hthread hunfinished
    rw [← hage] at hold
    exact absurd (Nat.le_of_add_le_add_left hold) (by decide)

end Discode.Typing
