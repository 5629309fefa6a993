import Discode.World

/-!
# The lifecycle of a session

The abstract machine that all writers of `sessions.status` implement together: what a
session is for the protocol, the moves of the writers, and the version fence that follows
from the moves alone.
-/

set_option autoImplicit false

namespace Discode

/-- The fields of a session row that the protocol between the parties rests on. -/
structure SessionCore where
  guildId : GuildId
  hostId : Option HostId
  status : Status
  version : ℕ
  token : Option Token
  deriving DecidableEq, Repr

def SessionRow.core (r : SessionRow) : SessionCore :=
  ⟨r.guildId, r.hostId, r.status, r.lifecycleVersion, r.toolResumeToken⟩

def Database.core? (db : Database) (sid : SessionId) : Option SessionCore :=
  (db.session? sid).map SessionRow.core

/-- One constructor for every kind of write to a session. -/
inductive Writer where
  | markRunning (hostId : HostId) (token : Option Token)
  | failCreation
  | touch
  | idle
  | stop
  | archive
  | archiveIdle
  | resume
  | restart
  | resumed (token : Option Token)
  | refuseResume
  | orphanResume
  | confirmStop
  | stopOld
  | stopUnconfirmed
  | loseRunner
  | failRecovery
  | orphanRecovery
  | storeToken (token : Token)
  deriving DecidableEq, Repr

namespace Writer

/-- The `WHERE status IN (…)` of the writer. -/
def sources : Writer → List Status
  | markRunning _ _ | failCreation => [.creating]
  | touch | storeToken _ => [.running, .idle]
  | idle => [.running]
  | stop => [.creating, .resuming, .running, .idle]
  | archive | restart => [.running, .idle, .stopped]
  | archiveIdle => [.idle]
  | resume => [.archived]
  | resumed _ | refuseResume | orphanResume => [.resuming]
  | confirmStop | stopUnconfirmed => [.stopping]
  | stopOld => [.running, .idle, .archived]
  | loseRunner | failRecovery | orphanRecovery => [.running, .idle, .resuming]

/-- What the writer sets. -/
def assign : Writer → SessionCore → SessionCore
  | markRunning hostId token, c =>
      { c with status := .running, hostId := some hostId, token := token <|> c.token }
  | failCreation, c | refuseResume, c | loseRunner, c | failRecovery, c =>
      { c with status := .failed }
  | touch, c => { c with status := .running }
  | idle, c => { c with status := .idle }
  | stop, c => { c with status := .stopping, version := c.version + 1 }
  | archive, c | archiveIdle, c => { c with status := .archived, version := c.version + 1 }
  | resume, c => { c with status := .resuming, version := c.version + 1 }
  | restart, c => { c with status := .resuming, version := c.version + 1, token := none }
  | resumed token, c => { c with status := .running, token := token }
  | orphanResume, c | orphanRecovery, c => { c with status := .orphaned }
  | confirmStop, c => { c with status := .stopped }
  | stopOld, c =>
      { c with
        status := if c.hostId.isSome then .stopping else .stopped, version := c.version + 1 }
  | stopUnconfirmed, c => { c with status := .stopped, version := c.version + 1 }
  | storeToken token, c => { c with token := some token }

def step (w : Writer) (c : SessionCore) : Option SessionCore :=
  if c.status ∈ w.sources then some (w.assign c) else none

/-- The writer of the result transaction. -/
@[simp] def storesToken : Writer → Bool
  | storeToken _ => true
  | _ => false

/-- The writers that neither store a token nor bring a session to life. -/
@[simp] def isOrdinary : Writer → Bool
  | storeToken _ | markRunning _ _ | resumed _ => false
  | _ => true

theorem storesToken_of_isOrdinary {w : Writer} (h : w.isOrdinary = true) :
    w.storesToken = false := by
  cases w with
  | storeToken token => cases h
  | _ => rfl

/-- A restart discards the token, every other ordinary writer keeps it. -/
theorem token_of_isOrdinary {w : Writer} (h : w.isOrdinary = true) (c : SessionCore) :
    (w.assign c).token = c.token ∨ (w.assign c).token = none := by
  cases w with
  | storeToken token => cases h
  | markRunning hostId token => cases h
  | resumed token => cases h
  | restart => exact .inr rfl
  | _ => exact .inl rfl

theorem assign_guildId (w : Writer) (c : SessionCore) : (w.assign c).guildId = c.guildId := by
  cases w <;> rfl

/-- Only the create job sets the host. -/
theorem assign_hostId {w : Writer} {c : SessionCore} (h : c.status ∈ w.sources)
    (hc : c.status ≠ .creating) : (w.assign c).hostId = c.hostId := by
  cases w with
  | markRunning hostId token => exact absurd (List.mem_singleton.mp h) hc
  | _ => rfl

theorem assign_hostId_isSome (w : Writer) {c : SessionCore} (h : c.hostId.isSome) :
    (w.assign c).hostId.isSome := by
  cases w with
  | markRunning hostId token => rfl
  | _ => exact h

theorem assign_not_creating {w : Writer} {c : SessionCore} (h : c.status ∈ w.sources) :
    (w.assign c).status ≠ .creating := by
  cases w with
  | stopOld => simp only [assign]; split <;> simp
  | storeToken token =>
      rcases List.mem_pair.mp h with hs | hs <;> simp [assign, hs]
  | _ => simp [assign]

theorem version_le_assign (w : Writer) (c : SessionCore) :
    c.version ≤ (w.assign c).version := by
  cases w <;> simp [assign]

end Writer

/-! ## The version fence -/

namespace SessionCore

/-- `running` or `idle` at version `v`: turns of that version may execute. -/
def LiveAt (c : SessionCore) (v : ℕ) : Prop := c.version = v ∧ c.status.isLive = true

/-- The session can never again be live at version `v`. -/
def LeftAt (c : SessionCore) (v : ℕ) : Prop :=
  v < c.version ∨ c.version = v ∧ (c.status = .failed ∨ c.status = .orphaned)

instance (c : SessionCore) (v : ℕ) : Decidable (c.LiveAt v) :=
  inferInstanceAs (Decidable (_ ∧ _))

instance (c : SessionCore) (v : ℕ) : Decidable (c.LeftAt v) :=
  inferInstanceAs (Decidable (_ ∨ _))

theorem LeftAt.not_liveAt {c : SessionCore} {v : ℕ} (h : c.LeftAt v) : ¬ c.LiveAt v := by
  rintro ⟨hv, hs⟩
  rcases h with hlt | ⟨-, hf | ho⟩
  · omega
  · simp [hf, Status.isLive] at hs
  · simp [ho, Status.isLive] at hs

theorem LeftAt.le {c : SessionCore} {v : ℕ} (h : c.LeftAt v) : v ≤ c.version := by
  rcases h with hlt | ⟨heq, -⟩
  · exact hlt.le
  · exact heq.ge

/-- Whatever a writer does to a live session, it stays live at its version or leaves it for
good: the moves out of `running` and `idle` that keep the version end in a final state. -/
theorem LiveAt.assign {c : SessionCore} {v : ℕ} (h : c.LiveAt v) {w : Writer}
    (hw : c.status ∈ w.sources) : (w.assign c).LiveAt v ∨ (w.assign c).LeftAt v := by
  obtain ⟨rfl, hs⟩ := h
  have hlive : c.status = .running ∨ c.status = .idle := by simpa [Status.isLive] using hs
  cases w with
  | markRunning hostId token => rcases hlive with h | h <;> simp [Writer.sources, h] at hw
  | failCreation => rcases hlive with h | h <;> simp [Writer.sources, h] at hw
  | resume => rcases hlive with h | h <;> simp [Writer.sources, h] at hw
  | resumed token => rcases hlive with h | h <;> simp [Writer.sources, h] at hw
  | refuseResume => rcases hlive with h | h <;> simp [Writer.sources, h] at hw
  | orphanResume => rcases hlive with h | h <;> simp [Writer.sources, h] at hw
  | confirmStop => rcases hlive with h | h <;> simp [Writer.sources, h] at hw
  | touch => exact .inl ⟨rfl, rfl⟩
  | idle => exact .inl ⟨rfl, rfl⟩
  | storeToken token => exact .inl ⟨rfl, hs⟩
  | loseRunner => exact .inr (.inr ⟨rfl, .inl rfl⟩)
  | failRecovery => exact .inr (.inr ⟨rfl, .inl rfl⟩)
  | orphanRecovery => exact .inr (.inr ⟨rfl, .inr rfl⟩)
  | stop => exact .inr (.inl (Nat.lt_succ_self _))
  | archive => exact .inr (.inl (Nat.lt_succ_self _))
  | archiveIdle => exact .inr (.inl (Nat.lt_succ_self _))
  | restart => exact .inr (.inl (Nat.lt_succ_self _))
  | stopOld => exact .inr (.inl (Nat.lt_succ_self _))
  | stopUnconfirmed => exact .inr (.inl (Nat.lt_succ_self _))

/-- No writer starts from a final state, and versions only grow. -/
theorem LeftAt.assign {c : SessionCore} {v : ℕ} (h : c.LeftAt v) {w : Writer}
    (hw : c.status ∈ w.sources) : (w.assign c).LeftAt v := by
  rcases h with hlt | ⟨-, hf | ho⟩
  · exact .inl (hlt.trans_le (w.version_le_assign c))
  · cases w <;> simp [Writer.sources, hf] at hw
  · cases w <;> simp [Writer.sources, ho] at hw

end SessionCore

/-! ## Transitions of one session -/

/-- How one session may change in one step by writers of `W`. -/
inductive CoreStep (W : Writer → Prop) : Option SessionCore → Option SessionCore → Prop where
  | same (c : Option SessionCore) : CoreStep W c c
  | created (c : SessionCore) (hs : c.status = .creating) (hv : c.version = 0)
      (ht : c.token = none) (hh : c.hostId.isSome) : CoreStep W none (some c)
  | move (w : Writer) (c : SessionCore) (hW : W w) (h : c.status ∈ w.sources) :
      CoreStep W (some c) (some (w.assign c))

namespace CoreStep

variable {W W' : Writer → Prop} {c c' : Option SessionCore}

theorem mono (h : CoreStep W c c') (hW : ∀ w, W w → W' w) : CoreStep W' c c' := by
  cases h with
  | same => exact .same _
  | created d hs hv ht hh => exact .created d hs hv ht hh
  | move w d hw h => exact .move w d (hW w hw) h

/-- A session is never deleted. -/
theorem some_left {d : SessionCore} (h : CoreStep W (some d) c') :
    c' = some d ∨ ∃ w, W w ∧ d.status ∈ w.sources ∧ c' = some (w.assign d) := by
  cases h with
  | same => exact .inl rfl
  | move w _ hw h => exact .inr ⟨w, hw, h, rfl⟩

theorem exists_of_some {d : SessionCore} (h : CoreStep W (some d) c') : ∃ d', c' = some d' := by
  rcases h.some_left with rfl | ⟨w, -, -, rfl⟩
  · exact ⟨d, rfl⟩
  · exact ⟨w.assign d, rfl⟩

theorem leftAt {d d' : SessionCore} (h : CoreStep W (some d) (some d')) {v : ℕ}
    (hd : d.LeftAt v) : d'.LeftAt v := by
  rcases h.some_left with he | ⟨w, -, hw, he⟩
  · exact Option.some.inj he ▸ hd
  · exact Option.some.inj he ▸ hd.assign hw

theorem liveAt {d d' : SessionCore} (h : CoreStep W (some d) (some d')) {v : ℕ}
    (hd : d.LiveAt v) : d'.LiveAt v ∨ d'.LeftAt v := by
  rcases h.some_left with he | ⟨w, -, hw, he⟩
  · exact .inl (Option.some.inj he ▸ hd)
  · exact Option.some.inj he ▸ hd.assign hw

/-- What ordinary writers leave live was live at the same version with the same token. -/
theorem live_of_ordinary {d' : SessionCore} (h : CoreStep W c (some d'))
    (hW : ∀ w, W w → w.isOrdinary = true) {v : ℕ} (hd' : d'.LiveAt v) :
    ∃ d, c = some d ∧ d.LiveAt v ∧ d'.token = d.token := by
  cases h with
  | same => exact ⟨d', rfl, hd', rfl⟩
  | created _ hs _ _ _ =>
      have hlive := hd'.2
      rw [hs] at hlive
      cases hlive
  | move w d hw hsource =>
      refine ⟨d, rfl, ?_⟩
      cases w with
      | touch =>
          refine ⟨⟨hd'.1, ?_⟩, rfl⟩
          simpa [Writer.sources, Status.isLive] using hsource
      | idle =>
          refine ⟨⟨hd'.1, ?_⟩, rfl⟩
          simp only [Writer.sources, List.mem_singleton] at hsource
          rw [hsource]
          rfl
      | stopOld =>
          have hlive := hd'.2
          simp only [Writer.assign] at hlive
          split at hlive <;> cases hlive
      | storeToken token => cases hW _ hw
      | markRunning hostId token => cases hW _ hw
      | resumed token => cases hW _ hw
      | _ => cases hd'.2

/-- While a session stays live at a version, only the result transaction replaces its token. -/
theorem token_of_live {d d' : SessionCore} (h : CoreStep W (some d) (some d'))
    (hW : ∀ w, W w → w.storesToken = false) {v : ℕ} (hd : d.LiveAt v ∨ d.LeftAt v)
    (hd' : d'.LiveAt v) : d.LiveAt v ∧ d'.token = d.token := by
  have hlive : d.LiveAt v := hd.resolve_right fun hl ↦ (h.leftAt hl).not_liveAt hd'
  refine ⟨hlive, ?_⟩
  have hrunning : d.status = .running ∨ d.status = .idle := by
    simpa [Status.isLive] using hlive.2
  rcases h.some_left with he | ⟨w, hw, hsource, he⟩
  · exact congrArg SessionCore.token (Option.some.inj he)
  · have he' := Option.some.inj he
    subst he'
    cases w with
    | storeToken token => cases hW _ hw
    | markRunning hostId token =>
        rcases hrunning with h | h <;> simp [Writer.sources, h] at hsource
    | resumed token => rcases hrunning with h | h <;> simp [Writer.sources, h] at hsource
    | restart => cases hd'.2
    | _ => rfl

/-- A session only starts to resume at a new version. -/
theorem eq_of_resuming {d d' : SessionCore} (h : CoreStep W (some d) (some d'))
    (hversion : d'.version = d.version) (hs : d'.status = .resuming) : d' = d := by
  rcases h.some_left with he | ⟨w, -, hsource, he⟩
  · exact Option.some.inj he
  · have he' := Option.some.inj he
    subst he'
    cases w with
    | resume => exact absurd hversion (Nat.succ_ne_self _)
    | restart => exact absurd hversion (Nat.succ_ne_self _)
    | stopOld =>
        simp only [Writer.assign] at hs
        split at hs <;> cases hs
    | storeToken token =>
        simp only [Writer.assign] at hs
        simp [Writer.sources, hs] at hsource
    | _ => cases hs

theorem not_creating {d d' : SessionCore} (h : CoreStep W (some d) (some d'))
    (hd : d.status ≠ .creating) : d'.status ≠ .creating := by
  rcases h.some_left with he | ⟨w, -, hsource, he⟩
  · exact Option.some.inj he ▸ hd
  · exact Option.some.inj he ▸ w.assign_not_creating hsource

theorem version_le {d d' : SessionCore} (h : CoreStep W (some d) (some d')) :
    d.version ≤ d'.version := by
  rcases h.some_left with he | ⟨w, -, -, he⟩
  · exact (congrArg SessionCore.version (Option.some.inj he)).ge
  · exact Option.some.inj he ▸ w.version_le_assign d

end CoreStep

end Discode
