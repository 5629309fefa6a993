import Discode.Library.ProcessPool
import Mathlib.Tactic.SplitIfs

/-!
# One sweep at a time

`run_sweep_once`, in any number of janitors.  The advisory lock belongs to a session of the
database server, the janitor has a pooled connection to it, and either side may lose the other.
-/

set_option autoImplicit false

namespace Discode.SweepLock

open ProcessPool (Machine)

/-! ## The server and the pools -/

abbrev ConnId := ℕ

inductive Checkout where
  | idle
  | used (pid : ℕ)
  /-- Closed on this side; the server ends its session later. -/
  | discarded
  deriving DecidableEq, Repr

structure Store where
  /-- The session that holds `JANITOR_SWEEP_LOCK_ID`, and how often. -/
  lock : Option (ConnId × ℕ)
  /-- The server has a session for the connection. -/
  sessions : ConnId → Bool
  conns : ConnId → Option Checkout
  /-- The sweeps that the calls have come to, in order. -/
  log : List (ℕ × String)

namespace Store

variable (s : Store) (c : ConnId)

/-- `pg_try_advisory_lock`; a session that holds the lock may take it again. -/
def tryLock : Bool × Store :=
  match s.lock with
  | none => (true, { s with lock := some (c, 1) })
  | some (holder, n) =>
      if holder = c then (true, { s with lock := some (c, n + 1) }) else (false, s)

/-- `pg_advisory_unlock`. -/
def unlock : Store :=
  match s.lock with
  | none => s
  | some (holder, n) =>
      if holder = c then { s with lock := if n ≤ 1 then none else some (c, n - 1) } else s

/-- The server ends the session and gives its locks free. -/
def endSession : Store :=
  { s with
    sessions := Function.update s.sessions c false
    lock := if s.lock.any fun l ↦ l.1 = c then none else s.lock }

def setConn (state : Checkout) : Store :=
  { s with conns := Function.update s.conns c (some state) }

def connect : Store := { s with sessions := Function.update s.sessions c true }

end Store

/-! ## `run_sweep_once` -/

/-- The sweeps of `_run_sweep_body`, in order. -/
def sweepNames : List String :=
  ["thread_binding_drift", "creating_watchdog", "resuming_watchdog", "stopping_watchdog",
    "idle_timeout", "archive_timeout", "stop_timeout", "heartbeat_orphans", "idempotency_keys",
    "events", "outbox", "turn_results", "dead_letter_gauges", "stream_trim"]

/-- How a call ends. -/
inductive Result where
  | swept
  /-- `-1`. -/
  | skipped
  | raised
  deriving DecidableEq, Repr

inductive Stage where
  | connecting
  | acquiring (c : ConnId)
  | sweeping (c : ConnId) (rest : List String)
  | releasing (c : ConnId) (result : Result)
  /-- The `except` clause around the release. -/
  | invalidating (c : ConnId)
  /-- The end of the `async with`. -/
  | closing (c : ConnId) (result : Result)
  deriving DecidableEq, Repr

inductive CallAction where
  | connect (c : ConnId)
  | answered
  /-- An error that leaves the connection as it is. -/
  | fail
  /-- The call is cancelled or the connection is lost, perhaps after the statement has had its
  effect; the driver closes the connection. -/
  | lost (done : Bool)
  /-- A sweep ends, also one that fails. -/
  | sweep
  | cancel
  | killed
  deriving DecidableEq, Repr

def Stage.conn? : Stage → Option ConnId
  | .connecting => none
  | .acquiring c | .sweeping c _ | .releasing c _ | .invalidating c | .closing c _ => some c

/-- After the last sweep the lock is released. -/
def Stage.afterSweep (c : ConnId) (rest : List String) : Stage :=
  if rest = [] then .releasing c .swept else .sweeping c rest

/-- A step of call `pid`. -/
def step (pid : ℕ) (s : Store) (stage : Stage) (a : CallAction) :
    Option (Store × Option Stage) :=
  match stage, a with
  | .connecting, .connect c => match s.conns c with
      | none => some ((s.connect c).setConn c (.used pid), some (.acquiring c))
      -- `pool_pre_ping` finds out whether the session is still there.
      | some .idle =>
          if s.sessions c then some (s.setConn c (.used pid), some (.acquiring c)) else none
      | some _ => none
  | .connecting, .fail => some (s, none)
  | .acquiring c, .answered =>
      if s.sessions c then
        let (acquired, s) := s.tryLock c
        some (s, some (if acquired then .sweeping c sweepNames else .closing c .skipped))
      else none
  | .acquiring c, .fail => some (s, some (.closing c .raised))
  | .acquiring c, .lost done =>
      some ((if done && s.sessions c then (s.tryLock c).2 else s).setConn c .discarded, none)
  | .sweeping c (name :: rest), .sweep =>
      some ({ s with log := s.log ++ [(pid, name)] }, some (.afterSweep c rest))
  | .sweeping c _, .cancel => some (s, some (.releasing c .raised))
  | .releasing c result, .answered =>
      if s.sessions c then some (s.unlock c, some (.closing c result)) else none
  | .releasing c _, .fail => some (s, some (.invalidating c))
  | .releasing c _, .lost done =>
      some (if done && s.sessions c then s.unlock c else s, some (.invalidating c))
  | .invalidating c, .answered => some (s.setConn c .discarded, none)
  | .closing c _, .answered => some (s.setConn c .idle, none)
  -- The rollback fails, or the pool has enough connections.
  | .closing c _, .lost _ => some (s.setConn c .discarded, none)
  | stage, .killed => match stage.conn? with
      | none => some (s, none)
      | some c => some (s.setConn c .discarded, none)
  | _, _ => none

/-- The calls of all janitors; the server may end a session at any time. -/
def janitors : Machine Store Stage ConnId Unit CallAction where
  env s c := some (s.endSession c)
  spawn _ s _ := some (s, .connecting)
  exec := step

structure Fresh (s : Store) : Prop where
  lock : s.lock = none
  conns : ∀ c, s.conns c = none
  log : s.log = []

abbrev SweepState := ProcessPool.State Store Stage

/-! ## The invariant -/

/-- The connection may be the one that holds the lock. -/
def Stage.mayHold : Stage → Bool
  | .sweeping _ _ | .releasing _ _ | .invalidating _ => true
  | _ => false

def Stage.isSweeping : Stage → Bool
  | .sweeping _ _ => true
  | _ => false

/-- The connection may hold the lock because of where it is. -/
def MayHold (σ : SweepState) (c : ConnId) : Prop :=
  σ.shared.conns c = some .discarded ∨
    ∃ pid stage, σ.procs pid = some stage ∧ stage.conn? = some c ∧ stage.mayHold = true

structure Inv (σ : SweepState) : Prop where
  fresh : ∀ pid, σ.next ≤ pid → σ.procs pid = none
  used : ∀ pid c, σ.shared.conns c = some (.used pid) ↔
    ∃ stage, σ.procs pid = some stage ∧ stage.conn? = some c
  lock : ∀ c n, σ.shared.lock = some (c, n) → n = 1 ∧ σ.shared.sessions c = true ∧ MayHold σ c
  /-- Who sweeps holds the lock as long as the server has its session. -/
  held : ∀ pid stage c, σ.procs pid = some stage → stage.isSweeping = true →
    stage.conn? = some c → σ.shared.sessions c = true → σ.shared.lock = some (c, 1)

/-- What a step of call `pid` does, all of it about connection `c`. -/
structure Change (pid : ℕ) (stage : Stage) (s : Store) (c : ConnId) (s' : Store)
    (next : Option Stage) : Prop where
  mine : stage.conn? = some c ∨
    stage.conn? = none ∧ (s.conns c = none ∨ s.conns c = some .idle)
  conns : ∀ c', c' ≠ c → s'.conns c' = s.conns c'
  sessions : ∀ c', c' ≠ c → s'.sessions c' = s.sessions c'
  lock : ∀ c' n, c' ≠ c → (s'.lock = some (c', n) ↔ s.lock = some (c', n))
  goesOn : (∃ stage', next = some stage' ∧ stage'.conn? = some c ∧
      s'.conns c = some (.used pid)) ∨
    next = none ∧ (s'.conns c = some .idle ∨ s'.conns c = some .discarded)
  mayHold : ∀ n, s'.lock = some (c, n) → n = 1 ∧ s'.sessions c = true ∧
    (s'.conns c = some .discarded ∨ ∃ stage', next = some stage' ∧ stage'.mayHold = true)
  held : ∀ stage', next = some stage' → stage'.isSweeping = true → s'.sessions c = true →
    s'.lock = some (c, 1)

variable {σ τ : SweepState} {pid : ℕ} {stage : Stage} {s s' : Store} {c : ConnId}
  {next : Option Stage}

/-- A connection that a call has checked out is no other one's. -/
theorem Inv.eq_of_conn (h : Inv σ) {pid' : ℕ} {stage' : Stage} (hp : σ.procs pid = some stage)
    (hp' : σ.procs pid' = some stage') (hc : stage.conn? = some c) (hc' : stage'.conn? = some c) :
    pid = pid' := by
  have hused := (h.used pid c).mpr ⟨stage, hp, hc⟩
  have hused' := (h.used pid' c).mpr ⟨stage', hp', hc'⟩
  rw [hused] at hused'
  cases hused'
  rfl

/-- The connection of a step is not the one of another call. -/
theorem Change.ne_of_conn (h : Change pid stage s c s' next) (hσ : Inv σ) (hs : σ.shared = s)
    (hp : σ.procs pid = some stage) {pid' : ℕ} {stage' : Stage} {c' : ConnId}
    (hp' : σ.procs pid' = some stage') (hc' : stage'.conn? = some c') (hne : pid' ≠ pid) :
    c' ≠ c := by
  rintro rfl
  rcases h.mine with hc | ⟨-, hfree⟩
  · exact hne (hσ.eq_of_conn hp' hp hc' hc)
  · have hused := (hσ.used pid' c').mpr ⟨stage', hp', hc'⟩
    rw [hs] at hused
    rcases hfree with hnone | hidle
    · rw [hnone] at hused
      cases hused
    · rw [hidle] at hused
      cases hused

/-- A call has no other connection than the one that its step is about. -/
theorem Change.conn_eq (h : Change pid stage s c s' next) {c' : ConnId}
    (hc' : stage.conn? = some c') : c' = c := by
  rcases h.mine with hc | ⟨hnone, -⟩
  · exact Option.some.inj (hc'.symm.trans hc)
  · rw [hnone] at hc'
    cases hc'

/-- Nor does it have another one afterwards. -/
theorem Change.next_conn (h : Change pid stage s c s' next) {stage' : Stage}
    (hnext : next = some stage') : stage'.conn? = some c ∧ s'.conns c = some (.used pid) := by
  rcases h.goesOn with ⟨stage'', hnext', hc, hused⟩ | ⟨hnone, -⟩
  · rw [hnext] at hnext'
    cases hnext'
    exact ⟨hc, hused⟩
  · rw [hnext] at hnone
    cases hnone

/-- The connection of a step is checked out by its call, if by any. -/
theorem Change.used_by (h : Change pid stage s c s' next) {pid' : ℕ}
    (hused : s'.conns c = some (.used pid')) :
    pid' = pid ∧ ∃ stage', next = some stage' ∧ stage'.conn? = some c := by
  rcases h.goesOn with ⟨stage', hnext, hc, hmine⟩ | ⟨-, hidle | hdiscarded⟩
  · rw [hmine] at hused
    cases hused
    exact ⟨rfl, stage', hnext, hc⟩
  · rw [hidle] at hused
    cases hused
  · rw [hdiscarded] at hused
    cases hused

theorem Inv.change_used (hσ : Inv σ) (hp : σ.procs pid = some stage)
    (h : Change pid stage σ.shared c s' next) (pid' : ℕ) (c' : ConnId) :
    s'.conns c' = some (.used pid') ↔
      ∃ stage', Function.update σ.procs pid next pid' = some stage' ∧ stage'.conn? = some c' := by
  by_cases hpid : pid' = pid
  · subst hpid
    rw [Function.update_self]
    constructor
    · intro hused
      by_cases hc : c' = c
      · subst hc
        exact (h.used_by hused).2
      · rw [h.conns c' hc] at hused
        obtain ⟨stage', hp', hc'⟩ := (hσ.used pid' c').mp hused
        rw [hp] at hp'
        cases hp'
        exact absurd (h.conn_eq hc') hc
    · rintro ⟨stage', hnext, hc'⟩
      obtain ⟨hc, hused⟩ := h.next_conn hnext
      cases hc'.symm.trans hc
      exact hused
  · rw [Function.update_of_ne hpid]
    by_cases hc : c' = c
    · subst hc
      refine iff_of_false (fun hused ↦ hpid (h.used_by hused).1) ?_
      rintro ⟨stage', hp', hc'⟩
      exact h.ne_of_conn hσ rfl hp hp' hc' hpid rfl
    · rw [h.conns c' hc]
      exact hσ.used pid' c'

theorem Inv.change_lock (hσ : Inv σ) (hp : σ.procs pid = some stage)
    (h : Change pid stage σ.shared c s' next) {c' : ConnId} {n : ℕ}
    (hlock : s'.lock = some (c', n)) :
    n = 1 ∧ s'.sessions c' = true ∧
      MayHold ⟨s', Function.update σ.procs pid next, σ.next⟩ c' := by
  by_cases hc : c' = c
  · subst hc
    obtain ⟨hn, hsession, hdiscarded | ⟨stage', hnext, hmay⟩⟩ := h.mayHold n hlock
    · exact ⟨hn, hsession, .inl hdiscarded⟩
    · refine ⟨hn, hsession, .inr ⟨pid, stage', ?_, (h.next_conn hnext).1, hmay⟩⟩
      simp only [Function.update_self]
      exact hnext
  · obtain ⟨hn, hsession, hmay⟩ := hσ.lock c' n ((h.lock c' n hc).mp hlock)
    refine ⟨hn, (h.sessions c' hc).trans hsession, ?_⟩
    rcases hmay with hdiscarded | ⟨pid', stage', hp', hc', hmay⟩
    · exact .inl ((h.conns c' hc).trans hdiscarded)
    · have hne : pid' ≠ pid := by
        rintro rfl
        rw [hp] at hp'
        cases hp'
        exact hc (h.conn_eq hc')
      refine .inr ⟨pid', stage', ?_, hc', hmay⟩
      simp only [Function.update_of_ne hne]
      exact hp'

theorem Inv.change_held (hσ : Inv σ) (hp : σ.procs pid = some stage)
    (h : Change pid stage σ.shared c s' next) {pid' : ℕ} {stage' : Stage} {c' : ConnId}
    (hp' : Function.update σ.procs pid next pid' = some stage')
    (hsweeping : stage'.isSweeping = true) (hc' : stage'.conn? = some c')
    (hsession : s'.sessions c' = true) : s'.lock = some (c', 1) := by
  by_cases hpid : pid' = pid
  · subst hpid
    rw [Function.update_self] at hp'
    cases hc'.symm.trans (h.next_conn hp').1
    exact h.held stage' hp' hsweeping hsession
  · rw [Function.update_of_ne hpid] at hp'
    have hc := h.ne_of_conn hσ rfl hp hp' hc' hpid
    rw [h.sessions c' hc] at hsession
    exact (h.lock c' 1 hc).mpr (hσ.held pid' stage' c' hp' hsweeping hc' hsession)

theorem Inv.change (hσ : Inv σ) (hp : σ.procs pid = some stage)
    (h : Change pid stage σ.shared c s' next) :
    Inv ⟨s', Function.update σ.procs pid next, σ.next⟩ where
  fresh pid' hpid' := by
    have hne : pid' ≠ pid := by
      rintro rfl
      rw [hσ.fresh pid' hpid'] at hp
      cases hp
    simp only [Function.update_of_ne hne]
    exact hσ.fresh pid' hpid'
  used := hσ.change_used hp h
  lock _ _ hlock := hσ.change_lock hp h hlock
  held _ _ _ hp' hsweeping hc' hsession := hσ.change_held hp h hp' hsweeping hc' hsession

/-- Processes without a connection come and go. -/
theorem Inv.congr (hσ : Inv σ) {procs : ℕ → Option Stage} {n : ℕ}
    (hfresh : ∀ pid, n ≤ pid → procs pid = none)
    (hprocs : ∀ pid stage c, stage.conn? = some c →
      (procs pid = some stage ↔ σ.procs pid = some stage)) :
    Inv ⟨σ.shared, procs, n⟩ := by
  refine ⟨hfresh, fun pid c ↦ ?_, fun c n hlock ↦ ?_, fun pid stage c hp hsweeping hc ↦ ?_⟩
  · rw [hσ.used pid c]
    constructor
    · rintro ⟨stage, hp, hc⟩
      exact ⟨stage, (hprocs pid stage c hc).mpr hp, hc⟩
    · rintro ⟨stage, hp, hc⟩
      exact ⟨stage, (hprocs pid stage c hc).mp hp, hc⟩
  · obtain ⟨hn, hsession, hmay⟩ := hσ.lock c n hlock
    refine ⟨hn, hsession, hmay.imp_right ?_⟩
    rintro ⟨pid, stage, hp, hc, hmay⟩
    exact ⟨pid, stage, (hprocs pid stage c hc).mpr hp, hc, hmay⟩
  · exact hσ.held pid stage c ((hprocs pid stage c hc).mp hp) hsweeping hc

theorem Inv.leave (hσ : Inv σ) (hp : σ.procs pid = some stage) (hc : stage.conn? = none) :
    Inv ⟨σ.shared, Function.update σ.procs pid none, σ.next⟩ := by
  refine hσ.congr (fun pid' hpid' ↦ ?_) fun pid' stage' c' hc' ↦ ?_
  · by_cases hpid : pid' = pid
    · subst hpid
      exact Function.update_self _ _ _
    · rw [Function.update_of_ne hpid]
      exact hσ.fresh pid' hpid'
  · by_cases hpid : pid' = pid
    · subst hpid
      rw [Function.update_self, hp]
      refine iff_of_false (fun h ↦ nomatch h) fun h ↦ ?_
      cases h
      rw [hc] at hc'
      cases hc'
    · rw [Function.update_of_ne hpid]

theorem Inv.spawn (hσ : Inv σ) :
    Inv ⟨σ.shared, Function.update σ.procs σ.next (some .connecting), σ.next + 1⟩ := by
  refine hσ.congr (fun pid' hpid' ↦ ?_) fun pid' stage' c' hc' ↦ ?_
  · rw [Function.update_of_ne (Nat.ne_of_gt (Nat.lt_of_succ_le hpid'))]
    exact hσ.fresh pid' (Nat.le_of_succ_le hpid')
  · by_cases hpid : pid' = σ.next
    · subst hpid
      rw [Function.update_self, hσ.fresh _ (Nat.le_refl _)]
      refine iff_of_false (fun h ↦ ?_) fun h ↦ nomatch h
      cases h
      cases hc'
    · rw [Function.update_of_ne hpid]

theorem Inv.endSession (hσ : Inv σ) (c : ConnId) :
    Inv { σ with shared := σ.shared.endSession c } := by
  have hlock : ∀ {c' n}, (σ.shared.endSession c).lock = some (c', n) ↔
      c' ≠ c ∧ σ.shared.lock = some (c', n) := by
    intro c' n
    unfold Store.endSession
    cases hl : σ.shared.lock with
    | none => simp
    | some l =>
        obtain ⟨holder, m⟩ := l
        by_cases hholder : holder = c
        · subst hholder
          simp only [Option.any_some, decide_true, if_true, Option.some.injEq, Prod.mk.injEq]
          exact iff_of_false (fun h ↦ nomatch h) fun h ↦ h.1 h.2.1.symm
        · simp only [Option.any_some, hholder, decide_false, Bool.false_eq_true, if_false,
            Option.some.injEq, Prod.mk.injEq]
          exact ⟨fun h ↦ ⟨fun heq ↦ hholder (h.1.trans heq), h⟩, fun h ↦ h.2⟩
  have hsessions : ∀ {c'}, c' ≠ c →
      (σ.shared.endSession c).sessions c' = σ.shared.sessions c' :=
    fun hne ↦ Function.update_of_ne hne _ _
  refine ⟨hσ.fresh, hσ.used, fun c' n hl ↦ ?_, fun pid stage c' hp hsweeping hc' hsession ↦ ?_⟩
  · obtain ⟨hne, hl⟩ := hlock.mp hl
    obtain ⟨hn, hsession, hmay⟩ := hσ.lock c' n hl
    exact ⟨hn, (hsessions hne).trans hsession, hmay⟩
  · have hne : c' ≠ c := by
      rintro rfl
      simp [Store.endSession] at hsession
    rw [hsessions hne] at hsession
    exact hlock.mpr ⟨hne, hσ.held pid stage c' hp hsweeping hc' hsession⟩

/-! ## The steps of a call -/

/-- What the lock has to do with the connection of a call. -/
theorem Inv.own_lock (hσ : Inv σ) (hp : σ.procs pid = some stage) (hc : stage.conn? = some c)
    {n : ℕ} (hlock : σ.shared.lock = some (c, n)) :
    n = 1 ∧ σ.shared.sessions c = true ∧ stage.mayHold = true := by
  obtain ⟨hn, hsession, hmay⟩ := hσ.lock c n hlock
  refine ⟨hn, hsession, ?_⟩
  rcases hmay with hdiscarded | ⟨pid', stage', hp', hc', hmay⟩
  · have hused := (hσ.used pid c).mpr ⟨stage, hp, hc⟩
    rw [hdiscarded] at hused
    cases hused
  · cases hσ.eq_of_conn hp hp' hc hc'
    rw [hp] at hp'
    cases hp'
    exact hmay

/-- A connection that is in a pool, or that does not exist yet, does not hold the lock. -/
theorem Inv.free_lock (hσ : Inv σ)
    (hfree : σ.shared.conns c = none ∨ σ.shared.conns c = some .idle) (n : ℕ) :
    σ.shared.lock ≠ some (c, n) := by
  intro hlock
  have hother : ∀ pid, σ.shared.conns c ≠ some (.used pid) := by
    intro pid hused
    rw [hused] at hfree
    rcases hfree with h | h <;> cases h
  obtain ⟨-, -, hdiscarded | ⟨pid, stage, hp, hc, -⟩⟩ := hσ.lock c n hlock
  · rw [hdiscarded] at hfree
    rcases hfree with h | h <;> cases h
  · exact hother pid ((hσ.used pid c).mpr ⟨stage, hp, hc⟩)

/-- Nothing is different but what connection `c` has of the lock. -/
structure LockOnly (s : Store) (c : ConnId) (s' : Store) : Prop where
  conns : s'.conns = s.conns
  sessions : s'.sessions = s.sessions
  lock : ∀ c' n, c' ≠ c → (s'.lock = some (c', n) ↔ s.lock = some (c', n))

theorem LockOnly.refl (s : Store) (c : ConnId) : LockOnly s c s :=
  ⟨rfl, rfl, fun _ _ _ ↦ Iff.rfl⟩

/-- The call goes on with its connection. -/
theorem Change.stays (hσ : Inv σ) (hp : σ.procs pid = some stage) (hc : stage.conn? = some c)
    {stage' : Stage} (hc' : stage'.conn? = some c) (honly : LockOnly σ.shared c s')
    (hmay : ∀ n, s'.lock = some (c, n) →
      n = 1 ∧ σ.shared.sessions c = true ∧ stage'.mayHold = true)
    (hheld : stage'.isSweeping = true → σ.shared.sessions c = true → s'.lock = some (c, 1)) :
    Change pid stage σ.shared c s' (some stage') where
  mine := .inl hc
  conns c' _ := congrFun honly.conns c'
  sessions c' _ := congrFun honly.sessions c'
  lock := honly.lock
  goesOn := .inl ⟨stage', rfl, hc', honly.conns ▸ (hσ.used pid c).mpr ⟨stage, hp, hc⟩⟩
  mayHold n hl := by
    obtain ⟨hn, hsession, hholds⟩ := hmay n hl
    exact ⟨hn, honly.sessions ▸ hsession, .inr ⟨stage', rfl, hholds⟩⟩
  held stage'' heq hsweeping hsession := by
    cases heq
    exact hheld hsweeping (honly.sessions ▸ hsession)

/-- The call goes on with its connection, and with the lock if it has it. -/
theorem Change.keeps (hσ : Inv σ) (hp : σ.procs pid = some stage) (hc : stage.conn? = some c)
    {stage' : Stage} (hc' : stage'.conn? = some c)
    (hmay : stage.mayHold = true → stage'.mayHold = true)
    (hsweeping : stage'.isSweeping = true → stage.isSweeping = true) (log : List (ℕ × String)) :
    Change pid stage σ.shared c { σ.shared with log := log } (some stage') := by
  refine .stays hσ hp hc hc' ⟨rfl, rfl, fun _ _ _ ↦ Iff.rfl⟩ (fun n hl ↦ ?_) fun hnext hsession ↦
    hσ.held pid stage c hp (hsweeping hnext) hc hsession
  obtain ⟨hn, hsession, hholds⟩ := hσ.own_lock hp hc hl
  exact ⟨hn, hsession, hmay hholds⟩

/-- The call ends, and its connection is discarded or goes back to the pool. -/
theorem Change.ends (hc : stage.conn? = some c) {state : Checkout}
    (hstate : state = .idle ∨ state = .discarded) (honly : LockOnly s c s')
    (hmay : ∀ n, s'.lock = some (c, n) → n = 1 ∧ s.sessions c = true ∧ state = .discarded) :
    Change pid stage s c (s'.setConn c state) none where
  mine := .inl hc
  conns c' hne := (Function.update_of_ne hne _ _).trans (congrFun honly.conns c')
  sessions c' _ := congrFun honly.sessions c'
  lock := honly.lock
  goesOn := .inr ⟨rfl, by simp [Store.setConn, hstate]⟩
  mayHold n hl := by
    obtain ⟨hn, hsession, rfl⟩ := hmay n hl
    exact ⟨hn, (congrFun honly.sessions c).trans hsession, .inl (Function.update_self _ _ _)⟩
  held stage' heq := nomatch heq

/-- The call ends and leaves the lock as it is; a connection that may hold it is discarded. -/
theorem Change.leaves (hσ : Inv σ) (hp : σ.procs pid = some stage) (hc : stage.conn? = some c)
    {state : Checkout} (hstate : state = .idle ∧ stage.mayHold = false ∨ state = .discarded) :
    Change pid stage σ.shared c (σ.shared.setConn c state) none := by
  refine .ends hc (hstate.imp_left And.left) (.refl _ c) fun n hl ↦ ?_
  obtain ⟨hn, hsession, hholds⟩ := hσ.own_lock hp hc hl
  refine ⟨hn, hsession, hstate.resolve_left fun hidle ↦ ?_⟩
  rw [hidle.2] at hholds
  cases hholds

/-- The call checks a connection out. -/
theorem Change.connects (hσ : Inv σ) (hc : stage.conn? = none)
    (hfree : σ.shared.conns c = none ∨ σ.shared.conns c = some .idle)
    (hconns : s'.conns = σ.shared.conns)
    (hsessions : ∀ c', c' ≠ c → s'.sessions c' = σ.shared.sessions c')
    (hlock : s'.lock = σ.shared.lock) :
    Change pid stage σ.shared c (s'.setConn c (.used pid)) (some (.acquiring c)) where
  mine := .inr ⟨hc, hfree⟩
  conns c' hne := (Function.update_of_ne hne _ _).trans (congrFun hconns c')
  sessions := hsessions
  lock c' n _ := by
    change s'.lock = some (c', n) ↔ _
    rw [hlock]
  goesOn := .inl ⟨_, rfl, rfl, Function.update_self _ _ _⟩
  mayHold n hl := absurd (hlock.symm.trans hl) (hσ.free_lock hfree n)
  held stage' heq hsweeping := by
    cases heq
    cases hsweeping

theorem tryLock_cases (hfree : ∀ n, s.lock ≠ some (c, n)) :
    (s.lock = none ∧ s.tryLock c = (true, { s with lock := some (c, 1) })) ∨
      s.tryLock c = (false, s) := by
  unfold Store.tryLock
  cases hl : s.lock with
  | none => exact .inl ⟨rfl, rfl⟩
  | some l =>
      obtain ⟨holder, n⟩ := l
      refine .inr (if_neg ?_)
      rintro rfl
      exact hfree n hl

theorem unlock_cases (hone : ∀ n, s.lock = some (c, n) → n = 1) :
    (s.lock = some (c, 1) ∧ s.unlock c = { s with lock := none }) ∨
      (∀ n, s.lock ≠ some (c, n)) ∧ s.unlock c = s := by
  unfold Store.unlock
  cases hl : s.lock with
  | none => exact .inr ⟨fun n ↦ nofun, rfl⟩
  | some l =>
      obtain ⟨holder, n⟩ := l
      by_cases hholder : holder = c
      · subst hholder
        cases hone n hl
        exact .inl ⟨rfl, if_pos rfl⟩
      · refine .inr ⟨fun m heq ↦ ?_, if_neg hholder⟩
        cases heq
        exact hholder rfl

/-- Whoever does not hold the lock takes it once, or leaves it as it is. -/
theorem tryLock_spec (hfree : ∀ n, s.lock ≠ some (c, n)) :
    LockOnly s c (s.tryLock c).2 ∧
      ∀ n, (s.tryLock c).2.lock = some (c, n) ↔ n = 1 ∧ (s.tryLock c).1 = true := by
  rcases tryLock_cases hfree with ⟨hnone, heq⟩ | heq
  · rw [heq]
    refine ⟨⟨rfl, rfl, fun c' n hne ↦ ?_⟩, fun n ↦ ?_⟩
    · rw [hnone]
      refine iff_of_false (fun h ↦ ?_) fun h ↦ nomatch h
      cases h
      exact hne rfl
    · simp [eq_comm]
  · rw [heq]
    exact ⟨.refl s c, fun n ↦ iff_of_false (hfree n) fun h ↦ nomatch h.2⟩

/-- Whoever holds the lock at most once does not hold it afterwards. -/
theorem unlock_spec (hone : ∀ n, s.lock = some (c, n) → n = 1) :
    LockOnly s c (s.unlock c) ∧ ∀ n, (s.unlock c).lock ≠ some (c, n) := by
  rcases unlock_cases hone with ⟨hheld, heq⟩ | ⟨hfree, heq⟩
  · rw [heq]
    refine ⟨⟨rfl, rfl, fun c' n hne ↦ ?_⟩, fun n h ↦ nomatch h⟩
    rw [hheld]
    refine iff_of_false (fun h ↦ nomatch h) fun h ↦ ?_
    cases h
    exact hne rfl
  · rw [heq]
    exact ⟨.refl s c, hfree⟩

/-- A call that asks for the lock does not hold it. -/
theorem Inv.lock_of_acquiring (hσ : Inv σ) (hp : σ.procs pid = some (.acquiring c)) (n : ℕ) :
    σ.shared.lock ≠ some (c, n) :=
  fun hl ↦ nomatch (hσ.own_lock hp rfl hl).2.2

/-- `try_advisory_lock` is answered. -/
theorem Change.acquires (hσ : Inv σ) (hp : σ.procs pid = some (.acquiring c))
    (hsession : σ.shared.sessions c = true) :
    Change pid (.acquiring c) σ.shared c (σ.shared.tryLock c).2
      (some (if (σ.shared.tryLock c).1 then .sweeping c sweepNames else .closing c .skipped)) := by
  obtain ⟨honly, hmine⟩ := tryLock_spec (hσ.lock_of_acquiring hp)
  cases hacquired : (σ.shared.tryLock c).1 with
  | false =>
      refine .stays hσ hp rfl rfl honly (fun n hl ↦ ?_) fun hsweeping ↦ nomatch hsweeping
      exact nomatch hacquired.symm.trans ((hmine n).mp hl).2
  | true =>
      exact .stays hσ hp rfl rfl honly (fun n hl ↦ ⟨((hmine n).mp hl).1, hsession, rfl⟩)
        fun _ _ ↦ (hmine 1).mpr ⟨rfl, hacquired⟩

/-- The connection is lost, perhaps with the lock. -/
theorem Change.acquire_lost (hσ : Inv σ) (hp : σ.procs pid = some (.acquiring c)) (done : Bool) :
    Change pid (.acquiring c) σ.shared c ((if done && σ.shared.sessions c then
      (σ.shared.tryLock c).2 else σ.shared).setConn c .discarded) none := by
  split_ifs with hdone
  · obtain ⟨honly, hmine⟩ := tryLock_spec (hσ.lock_of_acquiring hp)
    exact .ends rfl (.inr rfl) honly fun n hl ↦
      ⟨((hmine n).mp hl).1, ((Bool.and_eq_true _ _).mp hdone).2, rfl⟩
  · exact .leaves hσ hp rfl (.inr rfl)

/-- `advisory_unlock` has its effect. -/
theorem Change.releases (hσ : Inv σ) (hp : σ.procs pid = some stage) (hc : stage.conn? = some c)
    {stage' : Stage} (hc' : stage'.conn? = some c) (hover : stage'.isSweeping = false) :
    Change pid stage σ.shared c (σ.shared.unlock c) (some stage') := by
  obtain ⟨honly, hgone⟩ := unlock_spec fun n hl ↦ (hσ.own_lock hp hc hl).1
  refine .stays hσ hp hc hc' honly (fun n hl ↦ absurd hl (hgone n)) fun hsweeping ↦ ?_
  exact nomatch hover.symm.trans hsweeping

/-- A sweep of the pass ends. -/
theorem Change.sweeps (hσ : Inv σ) {name : String} {rest : List String}
    (hp : σ.procs pid = some (.sweeping c (name :: rest))) :
    Change pid (.sweeping c (name :: rest)) σ.shared c
      { σ.shared with log := σ.shared.log ++ [(pid, name)] } (some (.afterSweep c rest)) := by
  have hconn : (Stage.afterSweep c rest).conn? = some c := by
    unfold Stage.afterSweep
    split_ifs <;> rfl
  have hmay : (Stage.afterSweep c rest).mayHold = true := by
    unfold Stage.afterSweep
    split_ifs <;> rfl
  exact .keeps hσ hp rfl hconn (fun _ ↦ hmay) (fun _ ↦ rfl) _

/-- A step of a call is a change of its connection, or the end of a call that has none. -/
theorem step_change (hσ : Inv σ) (hp : σ.procs pid = some stage) {a : CallAction}
    (hstep : step pid σ.shared stage a = some (s', next)) :
    (∃ c, Change pid stage σ.shared c s' next) ∨
      stage.conn? = none ∧ s' = σ.shared ∧ next = none := by
  unfold step at hstep
  split at hstep
  · rename_i c
    left
    split at hstep
    · rename_i hnone
      cases hstep
      exact ⟨c, .connects hσ rfl (.inl hnone) rfl (fun c' hne ↦ Function.update_of_ne hne _ _) rfl⟩
    · rename_i hidle
      split_ifs at hstep
      cases hstep
      exact ⟨c, .connects hσ rfl (.inr hidle) rfl (fun _ _ ↦ rfl) rfl⟩
    · cases hstep
  · cases hstep
    exact .inr ⟨rfl, rfl, rfl⟩
  · rename_i c
    split_ifs at hstep with hsession
    cases hstep
    exact .inl ⟨c, .acquires hσ hp hsession⟩
  · rename_i c
    cases hstep
    exact .inl ⟨c, .keeps hσ hp rfl rfl (fun h ↦ by cases h) (fun h ↦ by cases h) _⟩
  · rename_i c done
    cases hstep
    exact .inl ⟨c, .acquire_lost hσ hp done⟩
  · rename_i c name rest
    cases hstep
    exact .inl ⟨c, .sweeps hσ hp⟩
  · rename_i c rest
    cases hstep
    exact .inl ⟨c, .keeps hσ hp rfl rfl (fun _ ↦ rfl) (fun h ↦ by cases h) _⟩
  · rename_i c result
    split_ifs at hstep
    cases hstep
    exact .inl ⟨c, .releases hσ hp rfl rfl rfl⟩
  · rename_i c result
    cases hstep
    exact .inl ⟨c, .keeps hσ hp rfl rfl (fun _ ↦ rfl) (fun h ↦ by cases h) _⟩
  · rename_i c result done
    cases hstep
    left
    split_ifs
    · exact ⟨c, .releases hσ hp rfl rfl rfl⟩
    · exact ⟨c, .keeps hσ hp rfl rfl (fun _ ↦ rfl) (fun h ↦ by cases h) _⟩
  · rename_i c
    cases hstep
    exact .inl ⟨c, .leaves hσ hp rfl (.inr rfl)⟩
  · rename_i c result
    cases hstep
    exact .inl ⟨c, .leaves hσ hp rfl (.inl ⟨rfl, rfl⟩)⟩
  · rename_i c result done
    cases hstep
    exact .inl ⟨c, .leaves hσ hp rfl (.inr rfl)⟩
  · split at hstep
    · rename_i hc
      cases hstep
      exact .inr ⟨hc, rfl, rfl⟩
    · rename_i c hc
      cases hstep
      exact .inl ⟨c, .leaves hσ hp hc (.inr rfl)⟩
  · cases hstep

theorem Inv.step (hσ : Inv σ) {a : ProcessPool.Action ConnId Unit CallAction}
    (hstep : janitors.step σ a = some τ) : Inv τ := by
  obtain ⟨c, s, rfl, he, rfl⟩ | ⟨u, s, stage, rfl, hi, rfl⟩ |
    ⟨pid, b, stage, s, next, rfl, hp, hb, rfl⟩ := Machine.step_cases hstep
  · cases he
    exact hσ.endSession c
  · cases hi
    exact hσ.spawn
  · rcases step_change hσ hp hb with ⟨c, hchange⟩ | ⟨hc, rfl, rfl⟩
    · exact hσ.change hp hchange
    · exact hσ.leave hp hc

theorem Fresh.inv (hs : Fresh s) : Inv (.start s) where
  fresh _ _ := rfl
  used pid c := by
    rw [show (ProcessPool.State.start (P := Stage) s).shared.conns c = none from hs.conns c]
    exact iff_of_false (fun h ↦ nomatch h) fun ⟨_, hp, _⟩ ↦ nomatch hp
  lock c n hl := nomatch hs.lock.symm.trans hl
  held _ _ _ hp := nomatch hp

theorem inv_of_reachable (h : janitors.Reachable Fresh σ) : Inv σ :=
  Machine.ReachableWhen.invariant (fun _ hs ↦ hs.inv) (fun _ _ _ _ hσ _ hstep ↦ hσ.step hstep) h

/-! ## The sweeps of a call -/

/-- The sweeps that a call has come to. -/
def namesOf (pid : ℕ) (log : List (ℕ × String)) : List String :=
  (log.filter fun e ↦ e.1 = pid).map Prod.snd

def Stage.Fits (names : List String) : Stage → Prop
  | .connecting | .acquiring _ => names = []
  | .sweeping _ rest => names ++ rest = sweepNames
  | .releasing _ result | .closing _ result => result = .swept → names = sweepNames
  | .invalidating _ => True

structure Tally (σ : SweepState) : Prop where
  silent : ∀ pid, σ.next ≤ pid → namesOf pid σ.shared.log = []
  fits : ∀ pid stage, σ.procs pid = some stage → stage.Fits (namesOf pid σ.shared.log)

theorem tryLock_log (s : Store) (c : ConnId) : (s.tryLock c).2.log = s.log := by
  unfold Store.tryLock
  split
  · rfl
  · split_ifs <;> rfl

theorem unlock_log (s : Store) (c : ConnId) : (s.unlock c).log = s.log := by
  unfold Store.unlock
  split
  · rfl
  · split_ifs <;> rfl

theorem namesOf_append (pid pid' : ℕ) (log : List (ℕ × String)) (name : String) :
    namesOf pid' (log ++ [(pid, name)]) =
      if pid = pid' then namesOf pid' log ++ [name] else namesOf pid' log := by
  unfold namesOf
  split_ifs with hpid
  · simp [hpid]
  · simp [hpid]

/-- A step adds the sweep it ends, and the call goes on with those that are left. -/
theorem step_fits {a : CallAction} (hstep : step pid s stage a = some (s', next))
    (hfits : stage.Fits (namesOf pid s.log)) :
    (∀ pid', pid' ≠ pid → namesOf pid' s'.log = namesOf pid' s.log) ∧
      ∀ stage', next = some stage' → stage'.Fits (namesOf pid s'.log) := by
  unfold step at hstep
  split at hstep
  · split at hstep
    · cases hstep
      refine ⟨fun _ _ ↦ rfl, fun stage' heq ↦ ?_⟩
      cases heq
      exact hfits
    · split_ifs at hstep
      cases hstep
      refine ⟨fun _ _ ↦ rfl, fun stage' heq ↦ ?_⟩
      cases heq
      exact hfits
    · cases hstep
  · cases hstep
    exact ⟨fun _ _ ↦ rfl, fun stage' heq ↦ nomatch heq⟩
  · rename_i c
    split_ifs at hstep
    have hlog := tryLock_log s c
    generalize s.tryLock c = locked at hstep hlog
    obtain ⟨acquired, s₁⟩ := locked
    cases hstep
    rw [hlog]
    refine ⟨fun _ _ ↦ rfl, fun stage' heq ↦ ?_⟩
    cases heq
    split_ifs
    · rw [Stage.Fits, show namesOf pid s.log = [] from hfits]
      rfl
    · exact fun h ↦ nomatch h
  · cases hstep
    refine ⟨fun _ _ ↦ rfl, fun stage' heq ↦ ?_⟩
    cases heq
    exact fun h ↦ nomatch h
  · rename_i c done
    cases hstep
    refine ⟨fun pid' _ ↦ ?_, fun stage' heq ↦ nomatch heq⟩
    change namesOf pid' (if _ then _ else s : Store).log = _
    split_ifs
    · rw [tryLock_log]
    · rfl
  · rename_i c name rest
    cases hstep
    refine ⟨fun pid' hne ↦ ?_, fun stage' heq ↦ ?_⟩
    · rw [namesOf_append, if_neg hne.symm]
    · cases heq
      have hnames : namesOf pid s.log ++ name :: rest = sweepNames := hfits
      rw [namesOf_append, if_pos rfl]
      unfold Stage.afterSweep
      split_ifs with hrest
      · subst hrest
        exact fun _ ↦ hnames
      · exact (List.append_assoc _ _ _).trans hnames
  · cases hstep
    refine ⟨fun _ _ ↦ rfl, fun stage' heq ↦ ?_⟩
    cases heq
    exact fun h ↦ nomatch h
  · rename_i c result
    split_ifs at hstep
    cases hstep
    rw [unlock_log]
    refine ⟨fun _ _ ↦ rfl, fun stage' heq ↦ ?_⟩
    cases heq
    exact hfits
  · cases hstep
    refine ⟨fun _ _ ↦ rfl, fun stage' heq ↦ ?_⟩
    cases heq
    trivial
  · rename_i c result done
    cases hstep
    refine ⟨fun pid' _ ↦ ?_, fun stage' heq ↦ ?_⟩
    · split_ifs
      · rw [unlock_log]
      · rfl
    · cases heq
      trivial
  · cases hstep
    exact ⟨fun _ _ ↦ rfl, fun stage' heq ↦ nomatch heq⟩
  · cases hstep
    exact ⟨fun _ _ ↦ rfl, fun stage' heq ↦ nomatch heq⟩
  · cases hstep
    exact ⟨fun _ _ ↦ rfl, fun stage' heq ↦ nomatch heq⟩
  · split at hstep
    · cases hstep
      exact ⟨fun _ _ ↦ rfl, fun stage' heq ↦ nomatch heq⟩
    · cases hstep
      exact ⟨fun _ _ ↦ rfl, fun stage' heq ↦ nomatch heq⟩
  · cases hstep

theorem Tally.step (hinv : Inv σ) (hσ : Tally σ)
    {a : ProcessPool.Action ConnId Unit CallAction} (hstep : janitors.step σ a = some τ) :
    Tally τ := by
  obtain ⟨c, s, rfl, he, rfl⟩ | ⟨u, s, stage, rfl, hi, rfl⟩ |
    ⟨pid, b, stage, s, next, rfl, hp, hb, rfl⟩ := Machine.step_cases hstep
  · cases he
    exact ⟨hσ.silent, hσ.fits⟩
  · cases hi
    refine ⟨fun pid hpid ↦ hσ.silent pid (Nat.le_of_succ_le hpid), fun pid stage hp ↦ ?_⟩
    by_cases hpid : pid = σ.next
    · subst hpid
      simp only [Function.update_self] at hp
      cases hp
      exact hσ.silent _ (Nat.le_refl _)
    · simp only [Function.update_of_ne hpid] at hp
      exact hσ.fits pid stage hp
  · obtain ⟨hothers, hnext⟩ := step_fits hb (hσ.fits pid stage hp)
    refine ⟨fun pid' hpid' ↦ ?_, fun pid' stage' hp' ↦ ?_⟩
    · have hne : pid' ≠ pid := by
        rintro rfl
        rw [hinv.fresh pid' hpid'] at hp
        cases hp
      exact (hothers pid' hne).trans (hσ.silent pid' hpid')
    · by_cases hpid : pid' = pid
      · subst hpid
        simp only [Function.update_self] at hp'
        exact hnext stage' hp'
      · simp only [Function.update_of_ne hpid] at hp'
        change stage'.Fits (namesOf pid' s.log)
        rw [hothers pid' hpid]
        exact hσ.fits pid' stage' hp'

theorem tally_of_reachable (h : janitors.Reachable Fresh σ) : Tally σ := by
  refine Machine.ReachableWhen.invariant (I := Tally) (fun s hs ↦ ⟨fun pid _ ↦ ?_, nofun⟩)
    (fun ρ _ _ hρ htally _ hstep ↦ htally.step (inv_of_reachable hρ) hstep) h
  change namesOf pid s.log = []
  rw [hs.log]
  rfl

/-- In every run two calls do not sweep at the same time, unless the server has ended the session
of one of them.  Nothing but the connection of a call that sweeps or releases, or one that the
client has discarded, holds the lock, and it holds it once: no pooled one does.  And a call that
has swept has come to every sweep once, in order, whichever of them failed. -/
theorem one_sweep_at_a_time (h : janitors.Reachable Fresh σ) :
    (∀ pid pid' c c' rest rest', σ.procs pid = some (.sweeping c rest) →
      σ.procs pid' = some (.sweeping c' rest') → σ.shared.sessions c = true →
      σ.shared.sessions c' = true → pid = pid') ∧
    (∀ c n, σ.shared.lock = some (c, n) →
      n = 1 ∧ MayHold σ c ∧ σ.shared.conns c ≠ some .idle) ∧
    ∀ pid c, σ.procs pid = some (.closing c .swept) →
      namesOf pid σ.shared.log = sweepNames := by
  have hinv := inv_of_reachable h
  refine ⟨fun pid pid' c c' rest rest' hp hp' hsession hsession' ↦ ?_, fun c n hlock ↦ ?_,
    fun pid c hp ↦ (tally_of_reachable h).fits pid _ hp rfl⟩
  · have hheld := hinv.held pid _ c hp rfl rfl hsession
    have hheld' := hinv.held pid' _ c' hp' rfl rfl hsession'
    rw [hheld] at hheld'
    cases hheld'
    exact hinv.eq_of_conn hp hp' rfl rfl
  · obtain ⟨hn, -, hmay⟩ := hinv.lock c n hlock
    exact ⟨hn, hmay, fun hidle ↦ hinv.free_lock (.inr hidle) n hlock⟩

def sampleStore : Store := ⟨none, fun _ ↦ false, fun _ ↦ none, []⟩

/-- One janitor sweeps while the other one skips its pass. -/
def sweepingState : SweepState :=
  (janitors.run (.start sampleStore) [.spawn (), .spawn (), .exec 0 (.connect 0),
    .exec 1 (.connect 1), .exec 0 .answered, .exec 0 .sweep, .exec 1 .answered]).get (by decide)

/-- The pass is over and the lock is free. -/
def sweptState : SweepState :=
  (janitors.run sweepingState (.replicate 13 (.exec 0 .sweep) ++ [.exec 0 .answered])).get
    (by decide +kernel)

theorem one_sweep_at_a_time_skipped :
    sweepingState.procs 1 = some (.closing 1 .skipped) ∧
      (∀ pid c rest, sweepingState.procs pid = some (.sweeping c rest) →
        sweepingState.shared.sessions c = true → pid = 0) ∧
      MayHold sweepingState 0 ∧ sweepingState.shared.conns 0 ≠ some .idle ∧
      sweptState.shared.lock = none ∧ namesOf 0 sweptState.shared.log = sweepNames := by
  have hsweeping : janitors.Reachable Fresh sweepingState :=
    Machine.reachable_of_run ⟨rfl, fun _ ↦ rfl, rfl⟩ (Option.some_get _).symm
  have hswept : janitors.Reachable Fresh sweptState :=
    hsweeping.reaches (Machine.reaches_of_run (Option.some_get _).symm)
  obtain ⟨hone, hlock, -⟩ := one_sweep_at_a_time hsweeping
  obtain ⟨-, hmay, hidle⟩ := hlock 0 1 (by decide +kernel)
  refine ⟨by decide +kernel, fun pid c rest hp hsession ↦ ?_, hmay, hidle, by decide +kernel,
    (one_sweep_at_a_time hswept).2.2 0 0 (by decide +kernel)⟩
  have hfirst : sweepingState.procs 0 = some (.sweeping 0 sweepNames.tail) := by decide +kernel
  exact hone pid 0 c 0 rest _ hp hfirst hsession (by decide +kernel)

end Discode.SweepLock
