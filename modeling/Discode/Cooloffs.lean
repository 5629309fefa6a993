import Discode.Library.ObservedPool
import Discode.Library.TransitionSystem
import Discode.RateLimiter

/-!
# Server cool-offs

What the notes of a channel and the calls that return are, in order, and when every call waits
for the end of all cool-offs noted before it returns.
-/

set_option autoImplicit false

namespace Discode.RateLimiter

open ProcessPool (Machine)

inductive Event where
  | note (channel : ChannelId) (time seconds : ℚ)
  | grant (channel : ChannelId) (time : ℚ)
deriving DecidableEq

def noted (s : Limiter) : Env → List Event
  | .tick _ => []
  | .noteRetryAfter channel seconds => [.note channel s.clock seconds]

/-- The calls that return in a step. -/
def returned (_ : ℕ) (s : Limiter) (_ : Acquire) (_ : AcquireAction) (s' : Limiter) : List Event :=
  (s'.completed.take (s'.completed.length - s.completed.length)).map fun e ↦ .grant e.1 e.2

/-- The calls on one limiter, with the history of notes and returns. -/
def watched (limits : Limits) : Machine (Limiter × List Event) Acquire Env ChannelId AcquireAction :=
  (acquires limits).observed noted returned

abbrev WatchedState := ProcessPool.State (Limiter × List Event) Acquire

abbrev WatchedAction := ProcessPool.Action Env ChannelId AcquireAction

def FreshWatch (w : Limiter × List Event) : Prop := Fresh w.1 ∧ w.2 = []

/-- The history changes nothing about the runs of the limiter. -/
theorem watched_reachable {limits : Limits} {ok : WatchedState → WatchedAction → Prop}
    {σ : WatchedState} (h : (watched limits).ReachableWhen ok FreshWatch σ) :
    (acquires limits).Reachable Fresh σ.forget := by
  obtain ⟨w, ⟨hfresh, -⟩, hreach⟩ := h
  exact ⟨w.1, hfresh, Machine.observed_reaches hreach⟩

/-- No call returns in a cool-off of its channel that has been noted before. -/
def Respects (earlier : List Event) (e : Event) : Prop :=
  ∀ channel t, e = .grant channel t → ∀ t₀ seconds, .note channel t₀ seconds ∈ earlier →
    t₀ + seconds ≤ t

/-- The time up to which a call is kept waiting. -/
def Acquire.wakes (s : Limiter) (p : Acquire) : ℚ :=
  match p.phase with
  | .waiting => (s.cooloffUntil p.channel).getD 0
  | .cooling wake => wake
  | .refilling wake => wake

/-- A note does not end before the one it replaces, and no call that sleeps on the channel wakes
before it ends. -/
structure NoteHeeded (σ : WatchedState) (channel : ChannelId) (seconds : ℚ) : Prop where
  longer : (σ.shared.1.cooloffUntil channel).getD 0 ≤ σ.shared.1.clock + max 0 seconds
  asleep : ∀ pid p, σ.procs pid = some p → p.channel = channel → p.phase ≠ .waiting →
    σ.shared.1.clock + max 0 seconds ≤ p.wakes σ.shared.1

def Heeded (σ : WatchedState) : WatchedAction → Prop
  | .env (.noteRetryAfter channel seconds) => NoteHeeded σ channel seconds
  | _ => True

/-! ## One step of a call -/

/-- What a step of a call shows, and until when the call goes on waiting. -/
inductive Outcome (s : Limiter) (p : Acquire) : Limiter → Option Acquire → Prop where
  | grant {s' : Limiter} (hready : p.wakes s ≤ s.clock)
      (hcompleted : s'.completed = (p.channel, s.clock) :: s.completed) : Outcome s p s' none
  | cool {s' : Limiter} (hcompleted : s'.completed = s.completed) :
      Outcome s p s' (some ⟨p.channel, .cooling ((s.cooloffUntil p.channel).getD 0)⟩)
  | refill {s' : Limiter} (hready : p.wakes s ≤ s.clock) (hcompleted : s'.completed = s.completed)
      (wake : ℚ) : Outcome s p s' (some ⟨p.channel, .refilling wake⟩)
  | quit {s' : Limiter} (hcompleted : s'.completed = s.completed) : Outcome s p s' none

variable {limits : Limits} {s s' : Limiter} {pid : ℕ} {p : Acquire}

theorem take_outcome (s₀ : Limiter) {q : Option Acquire} (hready : p.wakes s₀ ≤ s₀.clock)
    (hclock : s.clock = s₀.clock) (hcompleted : s.completed = s₀.completed)
    (hcooloff : s.cooloffUntil = s₀.cooloffUntil) (h : s.take limits p.channel = (s', q)) :
    Outcome s₀ p s' q ∧ s'.clock = s₀.clock ∧ s'.cooloffUntil = s₀.cooloffUntil := by
  unfold Limiter.take at h
  dsimp only at h
  split_ifs at h with hlow
  · cases h
    exact ⟨.refill hready hcompleted _, hclock, hcooloff⟩
  · cases h
    refine ⟨.grant hready ?_, hclock, hcooloff⟩
    rw [← hcompleted, ← hclock]
    rfl

theorem enter_outcome {q : Option Acquire} (hphase : p.phase = .waiting)
    (h : (s.lock p.channel pid).enter limits p.channel = (s', q)) :
    Outcome s p s' q ∧ s'.clock = s.clock ∧ s'.cooloffUntil = s.cooloffUntil := by
  have hwakes : p.wakes s = (s.cooloffUntil p.channel).getD 0 := by rw [Acquire.wakes, hphase]
  unfold Limiter.enter at h
  dsimp only at h
  split_ifs at h with hcool
  · cases h
    rw [add_sub_cancel]
    exact ⟨.cool rfl, rfl, rfl⟩
  · exact take_outcome (s := s.lock p.channel pid) s (hwakes.trans_le (not_lt.mp hcool)) rfl rfl
      rfl h

theorem step_outcome {a : AcquireAction} {q : Option Acquire}
    (h : p.step limits pid s a = some (s', q)) :
    Outcome s p s' q ∧ s'.clock = s.clock ∧ s'.cooloffUntil = s.cooloffUntil := by
  unfold Acquire.step at h
  cases a with
  | resume =>
      cases hphase : p.phase with
      | waiting =>
          simp only [hphase] at h
          split_ifs at h with hfree
          exact enter_outcome hphase (Option.some.inj h)
      | cooling wake =>
          simp only [hphase] at h
          split_ifs at h with hwake
          refine take_outcome s ?_ rfl rfl rfl (Option.some.inj h)
          rwa [Acquire.wakes, hphase]
      | refilling wake =>
          simp only [hphase] at h
          split_ifs at h with hwake
          cases h
          refine ⟨.grant ?_ rfl, rfl, rfl⟩
          rwa [Acquire.wakes, hphase]
  | cancel =>
      cases hphase : p.phase with
      | waiting =>
          simp only [hphase] at h
          cases h
          exact ⟨.quit rfl, rfl, rfl⟩
      | cooling wake =>
          simp only [hphase] at h
          cases h
          exact ⟨.quit rfl, rfl, rfl⟩
      | refilling wake =>
          simp only [hphase] at h
          cases h
          exact ⟨.quit rfl, rfl, rfl⟩

theorem returned_of_eq {a : AcquireAction} (h : s'.completed = s.completed) :
    returned pid s p a s' = [] := by
  simp [returned, h]

theorem returned_of_cons {a : AcquireAction} {channel : ChannelId} {t : ℚ}
    (h : s'.completed = (channel, t) :: s.completed) :
    returned pid s p a s' = [.grant channel t] := by
  have hone : s.completed.length + 1 - s.completed.length = 1 := by omega
  simp [returned, h, hone]

/-! ## All calls -/

/-- Every noted cool-off of the channel is over or ends by the deadline. -/
def CoveredUntil (w : Limiter × List Event) (channel : ChannelId) (deadline : ℚ) : Prop :=
  ∀ t₀ seconds, .note channel t₀ seconds ∈ w.2 → t₀ + seconds ≤ max w.1.clock deadline

structure Waiting (σ : WatchedState) : Prop where
  respected : EveryEvent Respects σ.shared.2
  covered : ∀ channel, CoveredUntil σ.shared channel ((σ.shared.1.cooloffUntil channel).getD 0)
  asleep : ∀ pid p, σ.procs pid = some p → p.phase ≠ .waiting →
    CoveredUntil σ.shared p.channel (p.wakes σ.shared.1)

theorem wakes_of_phase (h : p.phase ≠ .waiting) (s s' : Limiter) : p.wakes s' = p.wakes s := by
  unfold Acquire.wakes
  cases hphase : p.phase with
  | waiting => exact absurd hphase h
  | cooling wake => rfl
  | refilling wake => rfl

theorem CoveredUntil.tick {w : Limiter × List Event} {channel : ChannelId} {u : ℚ}
    (h : CoveredUntil w channel u) {d : ℚ} (hd : 0 ≤ d) :
    CoveredUntil ({ w.1 with clock := w.1.clock + d }, w.2) channel u := by
  intro t₀ seconds hnote
  exact (h t₀ seconds hnote).trans (max_le_max (le_add_of_nonneg_right hd) le_rfl)

theorem Waiting.note {σ : WatchedState} (h : Waiting σ) {channel : ChannelId} {seconds : ℚ}
    (hheeded : NoteHeeded σ channel seconds) :
    Waiting { σ with shared := (σ.shared.1.noteRetryAfter channel seconds,
      .note channel σ.shared.1.clock seconds :: σ.shared.2) } := by
  have hnew : σ.shared.1.clock + seconds ≤ σ.shared.1.clock + max 0 seconds :=
    add_le_add_right (le_max_right 0 seconds) _
  refine ⟨⟨fun other t heq ↦ (nomatch heq), h.respected⟩, fun other t₀ s₀ hmem ↦ ?_,
    fun pid p hp hphase t₀ s₀ hmem ↦ ?_⟩
  · by_cases hother : other = channel
    · subst hother
      have huntil : ((σ.shared.1.noteRetryAfter other seconds).cooloffUntil other).getD 0 =
          σ.shared.1.clock + max 0 seconds := by
        simp [Limiter.noteRetryAfter]
      rw [huntil]
      rcases List.mem_cons.mp hmem with heq | hmem
      · cases heq
        exact hnew.trans (le_max_right _ _)
      · exact (h.covered other t₀ s₀ hmem).trans (max_le_max le_rfl hheeded.longer)
    · have huntil : (σ.shared.1.noteRetryAfter channel seconds).cooloffUntil other =
          σ.shared.1.cooloffUntil other := Function.update_of_ne hother _ _
      rw [huntil]
      rcases List.mem_cons.mp hmem with heq | hmem
      · cases heq
        exact absurd rfl hother
      · exact h.covered other t₀ s₀ hmem
  · rw [wakes_of_phase hphase σ.shared.1]
    rcases List.mem_cons.mp hmem with heq | hmem
    · cases heq
      exact (hnew.trans (hheeded.asleep pid p hp rfl hphase)).trans (le_max_right _ _)
    · exact h.asleep pid p hp hphase t₀ s₀ hmem

theorem Waiting.exec {σ : WatchedState} (h : Waiting σ) {a : AcquireAction} {q : Option Acquire}
    (hp : σ.procs pid = some p) (hstep : p.step limits pid σ.shared.1 a = some (s', q)) :
    Waiting ⟨(s', returned pid σ.shared.1 p a s' ++ σ.shared.2),
      Function.update σ.procs pid q, σ.next⟩ := by
  obtain ⟨houtcome, hclock, hcooloff⟩ := step_outcome hstep
  -- When the call goes on, the cool-offs of its channel are over.
  have hover : p.wakes σ.shared.1 ≤ σ.shared.1.clock → ∀ t₀ seconds,
      .note p.channel t₀ seconds ∈ σ.shared.2 → t₀ + seconds ≤ σ.shared.1.clock := by
    intro hready t₀ seconds hnote
    by_cases hphase : p.phase = .waiting
    · have hcovered := h.covered p.channel t₀ seconds hnote
      rw [Acquire.wakes, hphase] at hready
      rwa [max_eq_left hready] at hcovered
    · have hcovered := h.asleep pid p hp hphase t₀ seconds hnote
      rwa [max_eq_left hready] at hcovered
  have hnotes : ∀ channel t₀ seconds,
      Event.note channel t₀ seconds ∈ returned pid σ.shared.1 p a s' ++ σ.shared.2 →
        Event.note channel t₀ seconds ∈ σ.shared.2 := by
    intro channel t₀ seconds hmem
    rcases List.mem_append.mp hmem with hmem | hmem
    · obtain ⟨e, -, heq⟩ := List.mem_map.mp hmem
      cases heq
    · exact hmem
  constructor
  · cases houtcome with
    | grant hready hcompleted =>
        dsimp only
        rw [returned_of_cons hcompleted]
        refine ⟨fun channel t heq t₀ seconds hnote ↦ ?_, h.respected⟩
        cases heq
        exact hover hready t₀ seconds hnote
    | cool hcompleted =>
        dsimp only
        rw [returned_of_eq hcompleted]
        exact h.respected
    | refill _ hcompleted _ =>
        dsimp only
        rw [returned_of_eq hcompleted]
        exact h.respected
    | quit hcompleted =>
        dsimp only
        rw [returned_of_eq hcompleted]
        exact h.respected
  · intro channel t₀ seconds hmem
    dsimp only
    rw [hclock, hcooloff]
    exact h.covered channel t₀ seconds (hnotes channel t₀ seconds hmem)
  · intro other r hr hphase t₀ seconds hmem
    have hnote := hnotes _ _ _ hmem
    change Function.update σ.procs pid q other = some r at hr
    dsimp only
    rw [hclock]
    by_cases hother : other = pid
    · subst hother
      rw [Function.update_self] at hr
      subst hr
      cases houtcome with
      | cool _ => exact h.covered p.channel t₀ seconds hnote
      | refill hready _ wake => exact (hover hready t₀ seconds hnote).trans (le_max_left _ _)
    · rw [Function.update_of_ne hother] at hr
      rw [wakes_of_phase hphase σ.shared.1]
      exact h.asleep other r hr hphase t₀ seconds hnote

theorem Waiting.step {σ τ : WatchedState} {a : WatchedAction} (h : Waiting σ) (ha : Heeded σ a)
    (hs : (watched limits).step σ a = some τ) : Waiting τ := by
  obtain ⟨e, w, rfl, he, rfl⟩ | ⟨channel, w, p, rfl, hspawn, rfl⟩ |
      ⟨pid, b, p, w, q, rfl, hp, hb, rfl⟩ := Machine.step_cases hs
  · obtain ⟨s', hs', rfl⟩ := Option.map_eq_some_iff.mp he
    cases e with
    | tick d =>
        simp only [acquires, envStep] at hs'
        split_ifs at hs' with hd
        cases hs'
        exact ⟨h.respected, fun channel ↦ (h.covered channel).tick hd,
          fun pid p hp hphase ↦ (wakes_of_phase hphase σ.shared.1 _) ▸
            (h.asleep pid p hp hphase).tick hd⟩
    | noteRetryAfter channel seconds =>
        cases hs'
        exact h.note ha
  · simp only [watched, Machine.observed, acquires, Option.map_some] at hspawn
    cases hspawn
    refine ⟨h.respected, h.covered, fun pid r hr hphase ↦ ?_⟩
    change Function.update σ.procs σ.next _ pid = some r at hr
    by_cases hpid : pid = σ.next
    · subst hpid
      rw [Function.update_self] at hr
      cases hr
      exact absurd rfl hphase
    · rw [Function.update_of_ne hpid] at hr
      exact h.asleep pid r hr hphase
  · obtain ⟨r, hr, heq⟩ := Option.map_eq_some_iff.mp hb
    cases heq
    exact h.exec hp hr

/-- In every run of the limiter in which no note is shorter than the one it replaces or comes while
a call of the channel sleeps that wakes before its end, every call returns after all cool-offs noted
before. -/
theorem cooloff_respected (limits : Limits) {σ : WatchedState}
    (h : (watched limits).ReachableWhen Heeded FreshWatch σ) :
    (acquires limits).Reachable Fresh σ.forget ∧ EveryEvent Respects σ.shared.2 := by
  refine ⟨watched_reachable h, ?_⟩
  refine (h.invariant (I := Waiting) ?_ fun _ _ _ _ hσ ha hs ↦ hσ.step ha hs).respected
  rintro ⟨s, history⟩ ⟨-, hempty⟩
  change history = [] at hempty
  subst hempty
  exact ⟨trivial, fun _ _ _ hmem ↦ (nomatch hmem), fun _ _ hp ↦ (nomatch hp)⟩

/-- A call sleeps until a note of two seconds is over, and one of them has passed. -/
def sleepingRun : List WatchedAction := [.spawn 7, .exec 0 .resume, .env (.tick 1)]

def notedState : WatchedState :=
  ((watched .default).step (.start (.start 0, [])) (.env (.noteRetryAfter 7 2))).get
    (by decide +kernel)

def sleepingState : WatchedState :=
  ((watched .default).run notedState sleepingRun).get (by decide +kernel)

def notedAgainState : WatchedState :=
  ((watched .default).step sleepingState (.env (.noteRetryAfter 7 1))).get (by decide +kernel)

def servedState : WatchedState :=
  ((watched .default).run notedAgainState [.env (.tick 1), .exec 0 .resume]).get (by decide +kernel)

/-- A note that comes while the call sleeps and ends when it wakes. -/
theorem cooloff_respected_two :
    servedState.shared.2 = [.grant 7 2, .note 7 1 1, .note 7 0 2] ∧
      EveryEvent Respects servedState.shared.2 := by
  have hfirst : Heeded (.start (.start 0, [])) (.env (.noteRetryAfter 7 2)) := by
    refine ⟨?_, fun pid p hp ↦ (nomatch hp)⟩
    decide +kernel
  have hsleeping : (watched .default).ReachableWhen Heeded FreshWatch sleepingState := by
    have hrun : (watched .default).run notedState sleepingRun = some sleepingState :=
      (Option.some_get _).symm
    refine ⟨(.start 0, []), ⟨⟨0, rfl⟩, rfl⟩, .head ⟨_, hfirst, (Option.some_get _).symm⟩
      (Machine.ReachesWhen.of_run (fun a ha ρ ↦ ?_) hrun)⟩
    simp only [sleepingRun, List.mem_cons, List.not_mem_nil, or_false] at ha
    rcases ha with rfl | rfl | rfl <;> trivial
  have hsecond : Heeded sleepingState (.env (.noteRetryAfter 7 1)) := by
    refine ⟨by decide +kernel, fun pid p hp _ _ ↦ ?_⟩
    obtain rfl : pid = 0 := Nat.lt_one_iff.mp (hsleeping.lt_next hp)
    have hwakes : (sleepingState.procs 0).map (Acquire.wakes sleepingState.shared.1) = some 2 := by
      decide +kernel
    rw [hp, Option.map_some] at hwakes
    rw [Option.some.inj hwakes]
    decide +kernel
  have hserved : (watched .default).ReachableWhen Heeded FreshWatch servedState := by
    have hrun : (watched .default).run notedAgainState [.env (.tick 1), .exec 0 .resume] =
        some servedState := (Option.some_get _).symm
    refine (hsleeping.step hsecond (Option.some_get _).symm).reaches (.of_run (fun a ha ρ ↦ ?_) hrun)
    simp only [List.mem_cons, List.not_mem_nil, or_false] at ha
    rcases ha with rfl | rfl <;> trivial
  exact ⟨by decide +kernel, (cooloff_respected .default hserved).2⟩

/-- A note that comes while a call sleeps, and a shorter note behind a longer one. -/
theorem cooloff_disregarded :
    (((watched .default).run (.start (.start 0, [])) [.env (.noteRetryAfter 7 1), .spawn 7,
        .exec 0 .resume, .env (.noteRetryAfter 7 10), .env (.tick 1), .exec 0 .resume]).map
          fun σ ↦ σ.shared.2) = some [.grant 7 1, .note 7 0 10, .note 7 0 1] ∧
    (((watched .default).run (.start (.start 0, [])) [.env (.noteRetryAfter 7 10),
        .env (.noteRetryAfter 7 1), .env (.tick 1), .spawn 7, .exec 0 .resume]).map
          fun σ ↦ σ.shared.2) = some [.grant 7 1, .note 7 0 1, .note 7 0 10] ∧
    ¬ ∀ (limits : Limits) (σ : WatchedState), (watched limits).Reachable FreshWatch σ →
      EveryEvent Respects σ.shared.2 := by
  have hrun : (((watched .default).run (.start (.start 0, [])) [.env (.noteRetryAfter 7 1), .spawn 7,
      .exec 0 .resume, .env (.noteRetryAfter 7 10), .env (.tick 1), .exec 0 .resume]).map
        fun σ ↦ σ.shared.2) = some [.grant 7 1, .note 7 0 10, .note 7 0 1] := by decide +kernel
  refine ⟨hrun, by decide +kernel, fun h ↦ ?_⟩
  obtain ⟨σ, hσ, hhistory⟩ := Option.map_eq_some_iff.mp hrun
  have hrespected := h .default σ (Machine.reachable_of_run ⟨⟨0, rfl⟩, rfl⟩ hσ)
  rw [hhistory] at hrespected
  have hearly := hrespected.1 7 1 rfl 0 10 (by decide)
  exact absurd hearly (by decide +kernel)

end Discode.RateLimiter
