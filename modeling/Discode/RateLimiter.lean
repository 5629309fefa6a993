import Discode.Library.ProcessPool
import Discode.Library.TokenBucket
import Mathlib.Algebra.Order.Ring.Rat

/-!
# The channel rate limiter

`ChannelRateLimiter` under exact arithmetic, with any number of concurrent `acquire` calls.  The
clock advances only between the steps of the calls, at their suspension points.
-/

set_option autoImplicit false

namespace Discode.RateLimiter

open ProcessPool (Machine)

abbrev ChannelId := ℕ

/-- The arguments of the constructor; `acquire` divides by the second one. -/
structure Limits where
  capacity : ℕ
  refill : ℚ
  capacity_pos : 1 ≤ capacity
  refill_pos : 0 < refill

/-- The dictionaries of the limiter, the clock, and the `acquire` calls that have returned with
the time at which they did, the last one first. -/
structure Limiter where
  clock : ℚ
  tokens : ChannelId → Option ℚ
  last : ChannelId → Option ℚ
  cooloffUntil : ChannelId → Option ℚ
  /-- The call that holds the lock of a channel. -/
  holder : ChannelId → Option ℕ
  completed : List (ChannelId × ℚ)

def Limiter.start (clock : ℚ) : Limiter where
  clock := clock
  tokens := fun _ ↦ none
  last := fun _ ↦ none
  cooloffUntil := fun _ ↦ none
  holder := fun _ ↦ none
  completed := []

/-- Where an `acquire` call is suspended. -/
inductive Phase where
  | waiting
  | cooling (wake : ℚ)
  | refilling (wake : ℚ)
  deriving DecidableEq

structure Acquire where
  channel : ChannelId
  phase : Phase
  deriving DecidableEq

inductive Env where
  | tick (d : ℚ)
  | noteRetryAfter (channel : ChannelId) (seconds : ℚ)

inductive AcquireAction where
  | resume
  | cancel

/-- `min(self._capacity, tokens + (now - last) * self._refill)`. -/
def Limiter.level (limits : Limits) (s : Limiter) (channel : ChannelId) (now : ℚ) : ℚ :=
  min limits.capacity ((s.tokens channel).getD limits.capacity +
    (now - (s.last channel).getD now) * limits.refill)

/-- The end of `acquire`. -/
def Limiter.complete (s : Limiter) (channel : ChannelId) (tokens : ℚ) : Limiter :=
  { s with
    tokens := Function.update s.tokens channel (some (tokens - 1))
    last := Function.update s.last channel (some s.clock)
    holder := Function.update s.holder channel none
    completed := (channel, s.clock) :: s.completed }

/-- `acquire` from where it computes the tokens. -/
def Limiter.take (limits : Limits) (s : Limiter) (channel : ChannelId) :
    Limiter × Option Acquire :=
  let tokens := s.level limits channel s.clock
  if tokens < 1 then (s, some ⟨channel, .refilling (s.clock + (1 - tokens) / limits.refill)⟩)
  else (s.complete channel tokens, none)

/-- `acquire` with the lock of the channel. -/
def Limiter.enter (limits : Limits) (s : Limiter) (channel : ChannelId) :
    Limiter × Option Acquire :=
  let cooloff := (s.cooloffUntil channel).getD 0
  if s.clock < cooloff then (s, some ⟨channel, .cooling (s.clock + (cooloff - s.clock))⟩)
  else s.take limits channel

def Limiter.lock (s : Limiter) (channel : ChannelId) (pid : ℕ) : Limiter :=
  { s with holder := Function.update s.holder channel (some pid) }

def Limiter.unlock (s : Limiter) (channel : ChannelId) : Limiter :=
  { s with holder := Function.update s.holder channel none }

/-- `note_retry_after`. -/
def Limiter.noteRetryAfter (s : Limiter) (channel : ChannelId) (seconds : ℚ) : Limiter :=
  { s with cooloffUntil :=
      Function.update s.cooloffUntil channel (some (s.clock + max 0 seconds)) }

def envStep (s : Limiter) : Env → Option Limiter
  | .tick d => if 0 ≤ d then some { s with clock := s.clock + d } else none
  | .noteRetryAfter channel seconds => some (s.noteRetryAfter channel seconds)

/-- A sleep may last longer than it was asked to. -/
def Acquire.step (limits : Limits) (pid : ℕ) (s : Limiter) (p : Acquire) :
    AcquireAction → Option (Limiter × Option Acquire)
  | .resume =>
      match p.phase with
      | .waiting =>
          if s.holder p.channel = none then some ((s.lock p.channel pid).enter limits p.channel)
          else none
      | .cooling wake => if wake ≤ s.clock then some (s.take limits p.channel) else none
      | .refilling wake => if wake ≤ s.clock then some (s.complete p.channel 1, none) else none
  | .cancel =>
      match p.phase with
      | .waiting => some (s, none)
      | _ => some (s.unlock p.channel, none)

/-- The calls of `acquire` on one limiter. -/
def acquires (limits : Limits) : Machine Limiter Acquire Env ChannelId AcquireAction where
  env := envStep
  spawn _ s channel := some (s, ⟨channel, .waiting⟩)
  exec := Acquire.step limits

/-- The times at which calls for the channel have returned. -/
def Limiter.grants (s : Limiter) (channel : ChannelId) : List ℚ :=
  (s.completed.filter fun e ↦ e.1 = channel).map Prod.snd

/-! ## The level of a bucket -/

def Limits.bucket (limits : Limits) : TokenBucket ℚ where
  capacity := limits.capacity
  rate := limits.refill
  capacity_nonneg := Nat.cast_nonneg _
  rate_nonneg := limits.refill_pos.le

variable {limits : Limits} {s : Limiter} {channel : ChannelId} {pid : ℕ} {p : Acquire}

/-- A bucket has been written with the time at which it was. -/
def Limiter.Dated (s : Limiter) : Prop := ∀ channel, s.last channel = none → s.tokens channel = none

theorem Limiter.level_of_fresh (h : s.Dated) (hlast : s.last channel = none) (now : ℚ) :
    s.level limits channel now = limits.capacity := by
  simp [Limiter.level, hlast, h channel hlast]

/-- The level rises with the clock as that of a token bucket. -/
theorem Limiter.level_add (h : s.Dated) (channel : ChannelId) (now : ℚ) {d : ℚ} (hd : 0 ≤ d) :
    s.level limits channel (now + d) = limits.bucket.refill (s.level limits channel now) d := by
  have hflow : 0 ≤ limits.refill * d := mul_nonneg limits.refill_pos.le hd
  cases hlast : s.last channel with
  | none =>
      rw [level_of_fresh h hlast, level_of_fresh h hlast]
      exact (min_eq_left (le_add_of_nonneg_right hflow)).symm
  | some last =>
      have hcap : ∀ x : ℚ, min (limits.capacity : ℚ) (x + limits.refill * d) =
          min (limits.capacity : ℚ) (min (limits.capacity : ℚ) x + limits.refill * d) := by
        intro x
        rw [← min_add_add_right, ← min_assoc, min_eq_left (le_add_of_nonneg_right hflow)]
      change min _ _ = min (limits.capacity : ℚ) (min _ _ + limits.refill * d)
      rw [← hcap, hlast, Option.getD_some, Option.getD_some]
      congr 1
      ring

/-- A sleep of the computed length, or a longer one, is enough for a token. -/
theorem Limiter.one_le_level (h : s.Dated) {now t : ℚ} (hlow : s.level limits channel now < 1)
    (ht : now + (1 - s.level limits channel now) / limits.refill ≤ t) :
    1 ≤ s.level limits channel t := by
  have hpos : 0 < limits.refill := limits.refill_pos
  have hcap : (1 : ℚ) ≤ limits.capacity := by exact_mod_cast limits.capacity_pos
  have hwait : (1 - s.level limits channel now) / limits.refill ≤ t - now := by linarith
  have hflow : 1 - s.level limits channel now ≤ limits.refill * (t - now) := by
    rw [mul_comm]
    exact (div_le_iff₀ hpos).mp hwait
  have hd : 0 ≤ t - now := (div_nonneg (by linarith) hpos.le).trans hwait
  rw [← add_sub_cancel now t, s.level_add h channel now hd]
  refine le_min hcap ?_
  change 1 ≤ _ + limits.refill * (t - now)
  linarith

/-! ## One step of a call -/

/-- What one step of a call does. -/
inductive Effect (limits : Limits) (pid : ℕ) (s : Limiter) (p : Acquire) :
    Limiter → Option Acquire → Prop where
  | cool (hfree : s.holder p.channel = none) (wake : ℚ) :
      Effect limits pid s p (s.lock p.channel pid) (some ⟨p.channel, .cooling wake⟩)
  | refill {s' : Limiter} (held : s.holder p.channel = none ∧ s' = s.lock p.channel pid ∨
        p.phase ≠ .waiting ∧ s' = s)
      (hlow : s.level limits p.channel s.clock < 1) :
      Effect limits pid s p s' (some ⟨p.channel,
        .refilling (s.clock + (1 - s.level limits p.channel s.clock) / limits.refill)⟩)
  | grant (held : s.holder p.channel = none ∨ p.phase ≠ .waiting) (tokens : ℚ)
      (hone : 1 ≤ tokens)
      (hfull : tokens = s.level limits p.channel s.clock ∨
        tokens = 1 ∧ ∃ wake, p.phase = .refilling wake ∧ wake ≤ s.clock) :
      Effect limits pid s p (s.complete p.channel tokens) none
  | leave (hphase : p.phase = .waiting) : Effect limits pid s p s none
  | abandon (hphase : p.phase ≠ .waiting) : Effect limits pid s p (s.unlock p.channel) none

variable {s' : Limiter}

theorem lock_complete (s : Limiter) (channel : ChannelId) (pid : ℕ) (tokens : ℚ) :
    (s.lock channel pid).complete channel tokens = s.complete channel tokens := by
  simp only [Limiter.lock, Limiter.complete, Function.update_idem]

theorem take_effect {q : Option Acquire} (hphase : p.phase ≠ .waiting)
    (h : s.take limits p.channel = (s', q)) : Effect limits pid s p s' q := by
  unfold Limiter.take at h
  dsimp only at h
  split_ifs at h with hlow
  · cases h
    exact .refill (.inr ⟨hphase, rfl⟩) hlow
  · cases h
    exact .grant (.inr hphase) _ (not_lt.mp hlow) (.inl rfl)

theorem enter_effect {q : Option Acquire} (hfree : s.holder p.channel = none)
    (h : (s.lock p.channel pid).enter limits p.channel = (s', q)) :
    Effect limits pid s p s' q := by
  unfold Limiter.enter Limiter.take at h
  dsimp only at h
  split_ifs at h with hcool hlow
  · cases h
    exact .cool hfree _
  · cases h
    exact .refill (.inl ⟨hfree, rfl⟩) hlow
  · rw [lock_complete] at h
    cases h
    exact .grant (.inl hfree) _ (not_lt.mp hlow) (.inl rfl)

theorem step_effect {a : AcquireAction} {q : Option Acquire}
    (h : p.step limits pid s a = some (s', q)) : Effect limits pid s p s' q := by
  unfold Acquire.step at h
  cases a with
  | resume =>
      cases hphase : p.phase with
      | waiting =>
          simp only [hphase] at h
          split_ifs at h with hfree
          exact enter_effect hfree (Option.some.inj h)
      | cooling wake =>
          simp only [hphase] at h
          split_ifs at h
          refine take_effect ?_ (Option.some.inj h)
          simp [hphase]
      | refilling wake =>
          simp only [hphase] at h
          split_ifs at h with hwake
          cases h
          exact .grant (.inr (by simp [hphase])) 1 le_rfl (.inr ⟨rfl, wake, hphase, hwake⟩)
  | cancel =>
      cases hphase : p.phase with
      | waiting =>
          simp only [hphase] at h
          cases h
          exact .leave hphase
      | cooling wake =>
          simp only [hphase] at h
          cases h
          exact .abandon (by simp [hphase])
      | refilling wake =>
          simp only [hphase] at h
          cases h
          exact .abandon (by simp [hphase])

/-! ## All calls -/

structure Bounded (limits : Limits) (s : Limiter) : Prop where
  dated : s.Dated
  grants : ∀ channel,
    limits.bucket.Bounded (s.grants channel) s.clock (s.level limits channel s.clock)

/-- A call that is past the lock holds it, and when it has slept for tokens there is one. -/
structure Holds (limits : Limits) (pid : ℕ) (p : Acquire) (s : Limiter) : Prop where
  held : p.phase ≠ .waiting → s.holder p.channel = some pid
  full : ∀ wake, p.phase = .refilling wake → ∀ t, wake ≤ t → 1 ≤ s.level limits p.channel t

theorem Bounded.start (limits : Limits) (clock : ℚ) : Bounded limits (.start clock) where
  dated _ _ := rfl
  grants channel := by
    rw [Limiter.level_of_fresh (fun _ _ ↦ rfl) rfl]
    exact .start limits.bucket clock

theorem Bounded.tick (h : Bounded limits s) {d : ℚ} (hd : 0 ≤ d) :
    Bounded limits { s with clock := s.clock + d } where
  dated := h.dated
  grants channel := by
    have hpause := (h.grants channel).pause hd
    rwa [← Limiter.level_add h.dated channel s.clock hd] at hpause

theorem grants_complete (s : Limiter) (channel other : ChannelId) (tokens : ℚ) :
    (s.complete channel tokens).grants other =
      if channel = other then s.clock :: s.grants other else s.grants other := by
  unfold Limiter.grants Limiter.complete
  split_ifs with h
  · simp [h]
  · simp [h]

theorem level_complete_of_ne {other : ChannelId} (h : other ≠ channel) (tokens t : ℚ) :
    (s.complete channel tokens).level limits other t = s.level limits other t := by
  simp only [Limiter.level, Limiter.complete, Function.update_of_ne h]

theorem Bounded.complete (h : Bounded limits s) {tokens : ℚ} (hone : 1 ≤ tokens)
    (hle : tokens ≤ s.level limits channel s.clock) :
    Bounded limits (s.complete channel tokens) where
  dated other hlast := by
    by_cases hother : other = channel
    · subst hother
      simp [Limiter.complete] at hlast
    · simp only [Limiter.complete, Function.update_of_ne hother] at hlast ⊢
      exact h.dated other hlast
  grants other := by
    rw [grants_complete]
    change limits.bucket.Bounded _ s.clock ((s.complete channel tokens).level limits other s.clock)
    by_cases hother : other = channel
    · subst hother
      have hcap : tokens - 1 ≤ limits.capacity :=
        (sub_le_self tokens zero_le_one).trans (hle.trans (min_le_left _ _))
      have hlevel : (s.complete other tokens).level limits other s.clock = tokens - 1 := by
        simp [Limiter.level, Limiter.complete, hcap]
      rw [if_pos rfl, hlevel]
      exact (h.grants other).grant (by linarith) (by linarith)
    · rw [if_neg (Ne.symm hother), level_complete_of_ne hother]
      exact h.grants other

/-- The step of a call leaves the other channels and the calls for them alone. -/
structure Spares (limits : Limits) (channel : ChannelId) (s s' : Limiter) : Prop where
  holder : ∀ other, other ≠ channel → s'.holder other = s.holder other
  level : ∀ other t, other ≠ channel → s'.level limits other t = s.level limits other t

theorem Effect.spares {q : Option Acquire} (h : Effect limits pid s p s' q) :
    Spares limits p.channel s s' := by
  cases h with
  | cool => exact ⟨fun _ hne ↦ Function.update_of_ne hne _ _, fun _ _ _ ↦ rfl⟩
  | refill held =>
      obtain ⟨-, rfl⟩ | ⟨-, rfl⟩ := held
      · exact ⟨fun _ hne ↦ Function.update_of_ne hne _ _, fun _ _ _ ↦ rfl⟩
      · exact ⟨fun _ _ ↦ rfl, fun _ _ _ ↦ rfl⟩
  | grant =>
      exact ⟨fun _ hne ↦ Function.update_of_ne hne _ _,
        fun _ t hne ↦ level_complete_of_ne hne _ t⟩
  | leave => exact ⟨fun _ _ ↦ rfl, fun _ _ _ ↦ rfl⟩
  | abandon => exact ⟨fun _ hne ↦ Function.update_of_ne hne _ _, fun _ _ _ ↦ rfl⟩

/-- A call only does something with the lock that it takes or holds. -/
theorem Effect.own {q : Option Acquire} (h : Effect limits pid s p s' q)
    (hp : Holds limits pid p s) :
    s' = s ∨ s.holder p.channel = none ∨ s.holder p.channel = some pid := by
  cases h with
  | cool hfree => exact .inr (.inl hfree)
  | refill held =>
      obtain ⟨hfree, -⟩ | ⟨hphase, rfl⟩ := held
      · exact .inr (.inl hfree)
      · exact .inl rfl
  | grant held => exact .inr (held.imp_right hp.held)
  | leave => exact .inl rfl
  | abandon hphase => exact .inr (.inr (hp.held hphase))

theorem Holds.frame {q : Option Acquire} {other : ℕ} {r : Acquire}
    (h : Holds limits other r s) (hne : other ≠ pid) (hp : Holds limits pid p s)
    (heffect : Effect limits pid s p s' q) : Holds limits other r s' := by
  rcases heffect.own hp with rfl | hlock
  · exact h
  by_cases hphase : r.phase = .waiting
  · refine ⟨fun hpast ↦ absurd hphase hpast, fun wake hwake ↦ ?_⟩
    rw [hphase] at hwake
    cases hwake
  · have hchannel : r.channel ≠ p.channel := by
      intro heq
      have hheld := h.held hphase
      rw [heq] at hheld
      rcases hlock with hfree | hmine
      · rw [hfree] at hheld
        cases hheld
      · rw [hmine] at hheld
        exact hne (Option.some.inj hheld).symm
    refine ⟨fun hpast ↦ ?_, fun wake hwake t ht ↦ ?_⟩
    · rw [heffect.spares.holder _ hchannel]
      exact h.held hpast
    · rw [heffect.spares.level _ _ hchannel]
      exact h.full wake hwake t ht

theorem Effect.bounded {q : Option Acquire} (h : Effect limits pid s p s' q)
    (hs : Bounded limits s) (hp : Holds limits pid p s) : Bounded limits s' := by
  cases h with
  | cool => exact ⟨hs.dated, hs.grants⟩
  | refill held =>
      obtain ⟨-, rfl⟩ | ⟨-, rfl⟩ := held
      · exact ⟨hs.dated, hs.grants⟩
      · exact hs
  | grant held tokens hone hfull =>
      refine hs.complete hone ?_
      obtain rfl | ⟨rfl, wake, hphase, hwake⟩ := hfull
      · exact le_rfl
      · exact hp.full wake hphase s.clock hwake
  | leave => exact hs
  | abandon => exact ⟨hs.dated, hs.grants⟩

theorem Effect.holds {r : Acquire} (h : Effect limits pid s p s' (some r))
    (hs : Bounded limits s) (hp : Holds limits pid p s) : Holds limits pid r s' := by
  cases h with
  | cool hfree wake =>
      exact ⟨fun _ ↦ Function.update_self .., (fun _ hphase ↦ nomatch hphase)⟩
  | refill held hlow =>
      obtain ⟨-, rfl⟩ | ⟨hphase, rfl⟩ := held
      · refine ⟨fun _ ↦ Function.update_self .., ?_⟩
        rintro _ ⟨⟩ t ht
        exact Limiter.one_le_level hs.dated hlow ht
      · refine ⟨fun _ ↦ hp.held hphase, ?_⟩
        rintro _ ⟨⟩ t ht
        exact Limiter.one_le_level hs.dated hlow ht

theorem acquires_proof (limits : Limits) :
    Machine.Proof (acquires limits) (fun _ _ ↦ True) (Bounded limits) (Holds limits) where
  env σ e s h _ hs := by
    cases e with
    | tick d =>
        simp only [acquires, envStep] at hs
        split_ifs at hs with hd
        cases hs
        exact ⟨h.inv.tick hd, fun pid p hp ↦ ⟨hp.held, hp.full⟩⟩
    | noteRetryAfter channel seconds =>
        cases hs
        exact ⟨⟨h.inv.dated, h.inv.grants⟩, fun pid p hp ↦ ⟨hp.held, hp.full⟩⟩
  spawn σ channel s p h _ hs := by
    cases hs
    exact ⟨h.inv, ⟨fun hpast ↦ absurd rfl hpast, (fun _ hphase ↦ nomatch hphase)⟩,
      fun _ _ _ hr ↦ hr⟩
  exec σ pid p a s q h _ hp hs := by
    have heffect := step_effect hs
    have hheld := h.assert pid p hp
    refine ⟨heffect.bounded h.inv hheld, ?_, fun other r hne hr ↦ hr.frame hne hheld heffect⟩
    rintro r rfl
    exact heffect.holds h.inv hheld

/-- The initial states: the limiter has just been made. -/
def Fresh (s : Limiter) : Prop := ∃ clock, s = .start clock

/-- In every interval of time, no more calls for a channel return than its bucket can hold and
what flows into it. -/
theorem acquire_bound (limits : Limits) {σ : ProcessPool.State Limiter Acquire}
    (h : (acquires limits).Reachable Fresh σ) (channel : ChannelId) {a b : ℚ} (hab : a ≤ b) :
    (TokenBucket.grantsIn (σ.shared.grants channel) a b : ℚ) ≤
      limits.capacity + limits.refill * (b - a) := by
  have hinit : ∀ s, Fresh s → Bounded limits s := by
    rintro _ ⟨clock, rfl⟩
    exact .start limits clock
  have hbounded := ((acquires_proof limits).annotated hinit h).inv
  exact (hbounded.grants channel).window a b hab

/-- The default arguments of the constructor. -/
def Limits.default : Limits := ⟨5, 1, by decide, by decide⟩

/-- Six calls at once; the last one has to sleep. -/
def sixCalls : List (ProcessPool.Action Env ChannelId AcquireAction) :=
  [.spawn 7, .exec 0 .resume, .spawn 7, .exec 1 .resume, .spawn 7, .exec 2 .resume,
    .spawn 7, .exec 3 .resume, .spawn 7, .exec 4 .resume, .spawn 7, .exec 5 .resume,
    .env (.tick 1), .exec 5 .resume]

theorem acquire_bound_six : ∃ σ, (acquires .default).run (.start (.start 0)) sixCalls = some σ ∧
    σ.shared.grants 7 = [1, 0, 0, 0, 0, 0] ∧
    (TokenBucket.grantsIn (σ.shared.grants 7) 0 1 : ℚ) ≤ (5 : ℕ) + 1 * (1 - 0) := by
  have hgrants : ((acquires .default).run (.start (.start 0)) sixCalls).map
      (fun σ ↦ σ.shared.grants 7) = some [1, 0, 0, 0, 0, 0] := by decide +kernel
  obtain ⟨σ, hrun, hσ⟩ := Option.map_eq_some_iff.mp hgrants
  exact ⟨σ, hrun, hσ, acquire_bound .default (Machine.reachable_of_run ⟨0, rfl⟩ hrun) 7 (by decide)⟩

end Discode.RateLimiter
