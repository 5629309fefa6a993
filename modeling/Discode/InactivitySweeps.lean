import Discode.Commits
import Discode.Transitions

/-!
# Inactivity sweeps and unfinished turns

`now()` is the start of a transaction, which may lie before the snapshot of a sweep that its
commit comes after.  The subquery of the sweep does not see the new turn then; what protects
the turn is the `last_activity_at` that came with it, as long as transactions are shorter
than the timeouts.
-/

set_option autoImplicit false

namespace Discode

open ProcessPool (Machine)

/-! ## Transactions that take time -/

/-- The shared state as a transaction sees it that began `lag` ms ago. -/
def World.enter (lag : ℕ) (w : World) : World :=
  { w with db := { w.db with now := w.db.now - lag } }

/-- The clock goes on from where it was before the transaction. -/
def World.leave (lag : ℕ) (w w' : World) : World :=
  { w' with db := { w'.db with now := w.db.now + (w'.db.now - (w.enter lag).db.now) } }

/-- The system with a lag for every transaction: the time from its start to its commit.  The
rate limit of `run_input_saga` reads the clock of the process instead; a run under other
limits covers the difference. -/
def delayed : Machine World Process (ℕ × EnvAction) (ℕ × SpawnAction) (ℕ × ExecAction) :=
  system.bracket World.enter World.leave

abbrev DelayedAction := ProcessPool.Action (ℕ × EnvAction) (ℕ × SpawnAction) (ℕ × ExecAction)

theorem clock_quiet {w w' : World} (hs : w'.db.sessions = w.db.sessions)
    (hturns : w'.db.inputTurns = w.db.inputTurns)
    (hseq : w'.db.nextSequence = w.db.nextSequence) (ho : w'.db.outbox = w.db.outbox)
    (hstreams : w'.streams = w.streams) (hlog : w'.log = w.log) : Quiet Ordinary w w' := by
  have hcore : ∀ sid, w'.db.core? sid = w.db.core? sid := by
    intro sid
    rw [Database.core?, Database.session?, hs]
    rfl
  have htx : LifecycleTx (fun _ ↦ False) w.db w'.db :=
    (LifecycleTx.refl _ w.db).frame hcore hturns hseq ho
  exact .of_tx htx (fun _ h ↦ h.elim) hstreams fun key ↦ by rw [hlog]

theorem delayed_proof {ok : SystemState → DelayedAction → Prop} :
    delayed.Proof ok TurnInv Process.Ok := by
  apply system_proof.bracket
  · intro lag w hinv
    have hquiet : Quiet Ordinary w (w.enter lag) := clock_quiet rfl rfl rfl rfl rfl rfl
    exact ⟨hinv.quiet hquiet, fun pid p hp ↦ hp.quiet hinv hquiet fun _ hl ↦ hl⟩
  · intro lag w w' hinv
    have hquiet : Quiet Ordinary w' (w.leave lag w') := clock_quiet rfl rfl rfl rfl rfl rfl
    exact ⟨hinv.quiet hquiet, fun pid p hp ↦ hp.quiet hinv hquiet fun _ hl ↦ hl⟩

/-! ## `last_activity_at` -/

/-- A transaction leaves `last_activity_at` alone or sets it to its start. -/
def Stamps (db db' : Database) : Prop :=
  ∀ sid r', db'.session? sid = some r' → r'.lastActivityAt = db.now ∨
    ∃ r, db.session? sid = some r ∧ r'.lastActivityAt = r.lastActivityAt

section

variable {f : SessionUpdate} {es : List Envelope} {db db' : Database}

theorem Updates.stamps (h : Updates f es db db')
    (hf : ∀ sid r, (f sid r).lastActivityAt = db.now ∨
      (f sid r).lastActivityAt = r.lastActivityAt) : Stamps db db' := by
  intro sid r' hr'
  rw [h.rows, Option.map_eq_some_iff] at hr'
  obtain ⟨r, hr, rfl⟩ := hr'
  rcases hf sid r with hnow | hsame
  · exact .inl hnow
  · exact .inr ⟨r, hr, hsame⟩

theorem Updates.stamps_of_only {sid : SessionId} {g : SessionRow → SessionRow}
    (h : Updates (.only sid g) es db db')
    (hg : ∀ r, (g r).lastActivityAt = db.now ∨ (g r).lastActivityAt = r.lastActivityAt) :
    Stamps db db' := by
  apply h.stamps
  intro s r
  unfold SessionUpdate.only
  split
  · exact hg r
  · exact .inr rfl

theorem Updates.stamps_of_whenDue {snapshot : Database} {p : SessionId → SessionRow → Bool}
    {g : SessionRow → SessionRow} (h : Updates (.whenDue snapshot p g) es db db')
    (hg : ∀ r, (g r).lastActivityAt = r.lastActivityAt) : Stamps db db' := by
  apply h.stamps
  intro s r
  unfold SessionUpdate.whenDue
  split
  · exact .inr (hg r)
  · exact .inr rfl

theorem SessionRow.released_lastActivityAt (failed : SessionId) (rows : List SessionId)
    (s : SessionId) (r : SessionRow) :
    (r.released failed rows s).lastActivityAt = r.lastActivityAt := by
  unfold SessionRow.released
  split <;> rfl

theorem SessionRow.releasedAll_lastActivityAt (released : SessionId → List SessionId)
    (failed : List (SessionId × SessionRow)) (s : SessionId) (r : SessionRow) :
    (r.releasedAll released failed s).lastActivityAt = r.lastActivityAt := by
  rw [SessionRow.releasedAll_eq]
  split <;> rfl

theorem Creates.stamps {req : CreateRequest} {predecessor : Option SessionId}
    (h : Creates req predecessor db db') : Stamps db db' := by
  intro sid r' hr'
  rw [h.rows] at hr'
  split at hr'
  · cases hr'
    exact .inl rfl
  · obtain ⟨r, hr, rfl⟩ := Option.map_eq_some_iff.mp hr'
    refine .inr ⟨r, hr, ?_⟩
    split <;> rfl

theorem runSweep_stamps (settings : Settings) (snapshot : Database)
    (released : SessionId → List SessionId) (db : Database) (kind : SweepKind) :
    Stamps db (runSweep settings snapshot released db kind) := by
  have helsewhere : ∀ db', Updates (fun _ r ↦ r) [] db db' → Stamps db db' :=
    fun db' h ↦ h.stamps fun _ _ ↦ .inr rfl
  cases kind with
  | creatingWatchdog =>
      have h := sweepCreatingWatchdog_updates settings snapshot released db
      apply h.stamps
      intro sid r
      rw [SessionRow.releasedAll_lastActivityAt, SessionUpdate.whenDue]
      split <;> exact .inr rfl
  | resumingWatchdog =>
      obtain ⟨p, -, h⟩ := sweepResumingWatchdog_updates settings snapshot db
      exact h.stamps_of_whenDue fun _ ↦ rfl
  | stoppingWatchdog =>
      obtain ⟨p, -, h⟩ := sweepStoppingWatchdog_updates settings snapshot db
      exact h.stamps_of_whenDue fun _ ↦ rfl
  | idleTimeout =>
      have h := sweepIdleTimeout_updates settings snapshot db
      exact h.stamps_of_whenDue fun _ ↦ rfl
  | archiveTimeout =>
      obtain ⟨es, -, h⟩ := sweepArchiveTimeout_updates settings snapshot db
      exact h.stamps_of_whenDue fun _ ↦ rfl
  | stopTimeout =>
      obtain ⟨es, -, h⟩ := sweepStopTimeout_updates settings snapshot db
      exact h.stamps_of_whenDue fun _ ↦ rfl
  | heartbeatOrphans =>
      obtain ⟨p, -, h⟩ := sweepRunnerHeartbeatOrphans_updates settings snapshot db
      exact h.stamps_of_whenDue fun _ ↦ rfl
  | events count => exact helsewhere _ (.elsewhere rfl rfl)
  | outbox batch => exact helsewhere _ (.elsewhere rfl rfl)
  | turnResults batch => exact helsewhere _ (.elsewhere rfl rfl)

end

theorem commit_stamps {σ : SystemState} {db' : Database} {a : SystemAction}
    (h : Commit σ db' a) : Stamps σ.shared.db db' := by
  cases h with
  | elsewhere _ h => exact h.stamps fun _ _ ↦ .inr rfl
  | touch _ _ _ _ h => exact h.stamps_of_only fun _ ↦ .inl rfl
  | record _ h =>
      apply h.stamps_of_only
      intro r
      split
      · exact .inl rfl
      · exact .inr rfl
  | bind _ _ _ h => exact h.stamps_of_only fun _ ↦ .inr rfl
  | repair _ hf _ h =>
      apply h.stamps_of_only
      intro r
      obtain ⟨reason, attempts, heq, -⟩ := hf r
      rw [heq]
      exact .inr rfl
  | stop hsaga =>
      obtain ⟨sess, -, -, h⟩ := runStopSaga_updates hsaga
      exact h.stamps_of_only fun _ ↦ .inr rfl
  | archive hsaga =>
      obtain ⟨sess, es, -, -, -, h⟩ := runArchiveSaga_updates hsaga
      exact h.stamps_of_only fun _ ↦ .inr rfl
  | resume hsaga =>
      obtain ⟨sess, -, -, h⟩ := runResumeSaga_updates hsaga
      exact h.stamps_of_only fun _ ↦ .inl rfl
  | restart hsaga =>
      obtain ⟨sess, -, -, h⟩ := runRestartSaga_updates hsaga
      exact h.stamps_of_only fun _ ↦ .inl rfl
  | confirmStop _ _ _ h => exact h.stamps_of_only fun _ ↦ .inr rfl
  | create _ h => exact h.stamps
  | failCreation _ _ _ _ h =>
      apply h.stamps
      intro sid r
      rw [SessionRow.released_lastActivityAt, SessionUpdate.only]
      split <;> exact .inr rfl
  | markRunning _ _ _ h => exact h.stamps_of_only fun _ ↦ .inr rfl
  | refuse _ _ _ _ h => exact h.stamps_of_only fun _ ↦ .inr rfl
  | resumed _ _ h => exact h.stamps_of_only fun _ ↦ .inl rfl
  | orphan _ _ _ h => exact h.stamps_of_only fun _ ↦ .inr rfl
  | spurious _ _ _ h => exact h.stamps fun _ _ ↦ .inr rfl
  | recover _ _ _ _ h =>
      apply h.stamps_of_only
      intro r
      split <;> exact .inr rfl
  | sweep _ _ hdb => exact hdb ▸ runSweep_stamps _ _ _ _ _

/-! ## What a sweep relies on -/

/-- Turns that the snapshot does not hold came with an activity of their session, at most
`D` ms before the snapshot. -/
structure Covered (D : ℕ) (p : Sweep) (w : World) : Prop where
  clock : p.snapshot.now ≤ w.db.now
  turns : ∀ key t r, w.db.turn? key = some t → p.snapshot.turn? key = none →
    w.db.session? t.sessionId = some r → p.snapshot.now ≤ r.lastActivityAt + D

theorem Covered.step {D : ℕ} {p : Sweep} {w w' : World} {now : Time} (h : Covered D p w)
    (hclock : w.db.now ≤ w'.db.now) (hnow : w.db.now ≤ now + D)
    (hstamps : ∀ sid r', w'.db.session? sid = some r' → r'.lastActivityAt = now ∨
      ∃ r, w.db.session? sid = some r ∧ r'.lastActivityAt = r.lastActivityAt)
    (hturns : ∀ key t', w'.db.turn? key = some t' →
      (∃ t, w.db.turn? key = some t ∧ t'.sessionId = t.sessionId) ∨
      ∃ r', w'.db.session? t'.sessionId = some r' ∧ r'.lastActivityAt = now) :
    Covered D p w' := by
  have hrecent : p.snapshot.now ≤ now + D := h.clock.trans hnow
  constructor
  · exact h.clock.trans hclock
  · intro key t' r' ht' hnew hr'
    rcases hstamps t'.sessionId r' hr' with hstamp | ⟨r, hr, hsame⟩
    · exact hstamp ▸ hrecent
    · rcases hturns key t' ht' with ⟨t, ht, hsid⟩ | ⟨r₁, hr₁, hstamp⟩
      · exact hsame ▸ h.turns key t r ht hnew (hsid ▸ hr)
      · cases hr'.symm.trans hr₁
        exact hstamp ▸ hrecent

/-- No transaction is longer than an inactivity timeout. -/
def Settings.Outlast (D : ℕ) (s : Settings) : Prop :=
  D ≤ s.defaultIdleTimeoutMinutes * 60000 ∧ D ≤ s.defaultArchiveTimeoutMinutes * 60000 ∧
    D ≤ s.defaultStopTimeoutHours * 3600000

def Process.Covered (D : ℕ) (p : Process) (w : World) : Prop :=
  match p with
  | .sweep p => p.settings.Outlast D ∧ Discode.Covered D p w
  | _ => True

/-- Transactions take at most `D` ms, and a sweep starts under timeouts that are not shorter. -/
def ShortTransactions (D : ℕ) (σ : SystemState) : DelayedAction → Prop
  | .env (lag, _) => lag ≤ D
  | .spawn (lag, .sweep _) => lag ≤ D ∧ σ.shared.settings.Outlast D
  | .spawn (lag, _) => lag ≤ D
  | .exec _ (lag, _) => lag ≤ D

theorem ShortTransactions.lag_le {D lag : ℕ} {σ : SystemState} {n : SpawnAction}
    (h : ShortTransactions D σ (.spawn (lag, n))) : lag ≤ D := by
  cases n with
  | sweep kind => exact h.1
  | _ => exact h

theorem World.now_le_enter {D lag : ℕ} (h : lag ≤ D) (w : World) :
    w.db.now ≤ (w.enter lag).db.now + D := by
  change w.db.now ≤ w.db.now - lag + D
  have hsub : w.db.now ≤ w.db.now - lag + lag := Nat.le_add_of_sub_le le_rfl
  exact hsub.trans (Nat.add_le_add_left h _)

theorem Process.Covered.step {D lag : ℕ} {p : Process} {w w' : World} (h : p.Covered D w)
    (hlag : lag ≤ D) (hstamps : Stamps (w.enter lag).db w'.db)
    (hturns : ∀ key t', w'.db.turn? key = some t' →
      (∃ t, w.db.turn? key = some t ∧ t'.sessionId = t.sessionId) ∨
      ∃ r', w'.db.session? t'.sessionId = some r' ∧ r'.lastActivityAt = (w.enter lag).db.now) :
    p.Covered D (w.leave lag w') := by
  cases p with
  | sweep p =>
      obtain ⟨hpatient, hcovered⟩ := h
      have hclock : w.db.now ≤ (w.leave lag w').db.now := Nat.le_add_right _ _
      exact ⟨hpatient, hcovered.step hclock (World.now_le_enter hlag w) hstamps hturns⟩
  | _ => trivial

/-- A sweep goes on after `release_superseded` only. -/
theorem execStep_sweep {pid : ℕ} {w w' : World} {p : Process} {a : ExecAction} {q : Sweep}
    (h : execStep pid w p a = some (w', some (.sweep q))) :
    ∃ p₀ sid, p = .sweep p₀ ∧ p₀.release w.db sid = some q := by
  generalize hr : some (Process.sweep q) = r at h
  cases execStep_cases h with
  | release hrelease =>
      cases hr
      exact ⟨_, _, rfl, hrelease⟩
  | crash | sweep => cases hr
  | reply hstep =>
      obtain ⟨⟨s, next⟩, -, he⟩ := Option.map_eq_some_iff.mp hstep
      cases he
      cases hr
  | createSaga | createJob | resumeJob | input | recovery | drift | relay | trim =>
      obtain ⟨_, -, he⟩ := Option.map_eq_some_iff.mp hr.symm
      cases he

theorem spawnStep_sweep {pid : ℕ} {w w' : World} {n : SpawnAction} {p : Sweep}
    (h : spawnStep pid w n = some (w', .sweep p)) :
    ∃ kind, n = .sweep kind ∧ p = ⟨kind, w.settings, w.db, []⟩ := by
  cases (spawnStep_cases h).2 with
  | sweep kind => exact ⟨kind, rfl, rfl⟩

/-- Only an accepted input inserts a turn, and it touches the session. -/
theorem envStep_turns {w w' : World} {e : EnvAction} (h : envStep w e = some w') {key : Key}
    {t' : InputTurn} (ht' : w'.db.turn? key = some t') :
    (∃ t, w.db.turn? key = some t ∧ t'.sessionId = t.sessionId) ∨
      ∃ r', w'.db.session? t'.sessionId = some r' ∧ r'.lastActivityAt = w.db.now := by
  by_cases he : ∀ key sid guildId text, e ≠ .input key sid guildId text
  · rw [(envStep_quiet h he).turn?] at ht'
    exact .inl ⟨t', ht', rfl⟩
  · simp only [not_forall, not_not] at he
    obtain ⟨key₀, sid, guildId, text, rfl⟩ := he
    obtain ⟨row, job, db', rfl, hrow, -, hacc, -, -, -⟩ := inputSaga_accepted h
    rw [World.db_setDb, hacc.turn] at ht'
    split at ht'
    · cases ht'
      refine .inr ⟨{ row with lastActivityAt := w.db.now, status := .running }, ?_, rfl⟩
      rw [World.db_setDb, hacc.session, acceptedTurn, if_pos rfl, hrow]
      rfl
    · exact .inl ⟨t', ht', rfl⟩

theorem execStep_turns {pid : ℕ} {w w' : World} {p : Process} {a : ExecAction}
    {q : Option Process} (hinv : TurnInv w) (hp : p.Ok pid w)
    (h : execStep pid w p a = some (w', q)) {key : Key} {t' : InputTurn}
    (ht' : w'.db.turn? key = some t') :
    ∃ t, w.db.turn? key = some t ∧ t'.sessionId = t.sessionId := by
  have hok := execStep_ok hinv hp h
  cases ht : w.db.turn? key with
  | none =>
      rw [hok.absent key ht] at ht'
      cases ht'
  | some t =>
      obtain ⟨t₁, ht₁, hadv⟩ := hok.advance.turn key t ht
      cases ht'.symm.trans ht₁
      exact ⟨t, rfl, hadv.sessionId⟩

theorem covered_proof (D : ℕ) : delayed.Proof (ShortTransactions D) (fun w ↦ TurnInv w ∧ True)
    (fun pid p w ↦ p.Ok pid w ∧ p.Covered D w) := by
  apply delayed_proof.and
  · intro σ e w _ _ hlag hs
    obtain ⟨w₁, hstep, rfl⟩ := Option.map_eq_some_iff.mp hs
    have hcommit : Commit { σ with shared := σ.shared.enter e.1 } w₁.db (.env e.2) :=
      envStep_commit hstep
    refine ⟨trivial, fun pid p _ hcovered ↦ ?_⟩
    exact hcovered.step hlag (commit_stamps hcommit) fun key t' ht' ↦ envStep_turns hstep ht'
  · rintro σ ⟨lag, n⟩ w p _ _ hlag hs
    obtain ⟨⟨w₁, p₁⟩, hstep, he⟩ := Option.map_eq_some_iff.mp hs
    cases he
    have hspawn : spawnStep σ.next (σ.shared.enter lag) n = some (w₁, p₁) := hstep
    have hw : w₁ = σ.shared.enter lag := spawnStep_world hspawn
    subst hw
    refine ⟨trivial, ?_, fun q r _ _ hr ↦ ?_⟩
    · cases p₁ with
      | sweep p =>
          obtain ⟨kind, rfl, rfl⟩ := spawnStep_sweep hspawn
          have hstart : (σ.shared.enter lag).db.now ≤ σ.shared.db.now := Nat.sub_le _ _
          refine ⟨hlag.2, hstart.trans (Nat.le_add_right _ _), fun key t r ht hnew ↦ ?_⟩
          exact absurd (ht.symm.trans hnew) (Option.some_ne_none t)
      | _ => trivial
    · exact hr.step hlag.lag_le (fun sid r' hr' ↦ .inr ⟨r', hr', rfl⟩)
        fun key t' ht' ↦ .inl ⟨t', ht', rfl⟩
  · intro σ pid p a w p' h _ hlag hp hok hcovered hs
    obtain ⟨⟨w₁, p₁⟩, hstep, he⟩ := Option.map_eq_some_iff.mp hs
    cases he
    have hcommit : Commit { σ with shared := σ.shared.enter a.1 } w₁.db (.exec pid a.2) :=
      execStep_commit hp hstep
    have hturns : ∀ key t', w₁.db.turn? key = some t' →
        ∃ t, σ.shared.db.turn? key = some t ∧ t'.sessionId = t.sessionId := by
      intro key t' ht'
      have hquiet : Quiet Ordinary σ.shared (σ.shared.enter a.1) :=
        clock_quiet rfl rfl rfl rfl rfl rfl
      have hok' : p.Ok pid (σ.shared.enter a.1) := hok.quiet h.inv hquiet fun _ hl ↦ hl
      exact execStep_turns (h.inv.quiet hquiet) hok' hstep ht'
    refine ⟨trivial, fun r hr ↦ ?_, fun q r _ _ hr ↦ ?_⟩
    · cases r with
      | sweep q =>
          have hp₁ : p₁ = some (.sweep q) := hr
          subst hp₁
          obtain ⟨p₀, sid, rfl, hrelease⟩ := execStep_sweep hstep
          have hnext := hcovered.step hlag (commit_stamps hcommit) fun key t' ht' ↦
            .inl (hturns key t' ht')
          rw [(Sweep.release_eq_some hrelease).2]
          exact ⟨hnext.1, hnext.2.clock, hnext.2.turns⟩
      | _ => trivial
    · exact hr.step hlag (commit_stamps hcommit) fun key t' ht' ↦ .inl (hturns key t' ht')

/-! ## The sweeps -/

theorem Updates.due_of_changed {snapshot db db' : Database} {es : List Envelope}
    {p : SessionId → SessionRow → Bool} {f : SessionRow → SessionRow}
    (h : Updates (.whenDue snapshot p f) es db db') {sid : SessionId} {r r' : SessionRow}
    (hr : db.session? sid = some r) (hr' : db'.session? sid = some r')
    (hne : r'.status ≠ r.status) : p sid r = true := by
  cases (h.get hr).symm.trans hr'
  by_contra hnot
  apply hne
  rw [SessionUpdate.whenDue, if_neg]
  intro hdue
  exact hnot (Bool.and_eq_true_iff.mp hdue).1

/-- A session that an inactivity sweep moves had no unfinished turn in the snapshot, and its
last activity is older than any transaction. -/
theorem inactive_of_moved {D : ℕ} {p : Sweep} {db : Database} (hpatient : p.settings.Outlast D)
    (hk : p.kind = .idleTimeout ∨ p.kind = .archiveTimeout ∨ p.kind = .stopTimeout)
    {sid : SessionId} {r r' : SessionRow} (hr : db.session? sid = some r)
    (hr' : (runSweep p.settings p.snapshot p.released db p.kind).session? sid = some r')
    (hne : r'.status ≠ r.status) :
    p.snapshot.noPendingTurn sid r = true ∧ r.lastActivityAt + D < p.snapshot.now := by
  obtain ⟨hidle, harchive, hstop⟩ := hpatient
  rcases hk with hk | hk | hk <;> rw [hk] at hr'
  · have hupd := sweepIdleTimeout_updates p.settings p.snapshot db
    obtain ⟨-, hnone, hold⟩ := of_decide_eq_true (hupd.due_of_changed hr hr' hne)
    exact ⟨hnone, (Nat.add_le_add_left hidle _).trans_lt hold⟩
  · obtain ⟨es, -, hupd⟩ := sweepArchiveTimeout_updates p.settings p.snapshot db
    obtain ⟨-, hnone, hold⟩ := of_decide_eq_true (hupd.due_of_changed hr hr' hne)
    exact ⟨hnone, (Nat.add_le_add_left harchive _).trans_lt hold⟩
  · obtain ⟨es, -, hupd⟩ := sweepStopTimeout_updates p.settings p.snapshot db
    obtain ⟨-, hold, hnone⟩ := of_decide_eq_true (hupd.due_of_changed hr hr' hne)
    exact ⟨hnone, (Nat.add_le_add_left hstop _).trans_lt hold⟩

theorem TurnStatus.isSettled_eq (s : TurnStatus) : s.isSettled = !s.isPending := by
  cases s <;> rfl

/-- What the subquery found for a turn of the snapshot. -/
theorem not_pending_of_noPendingTurn {snapshot : Database} {r : SessionRow} {key : Key}
    {t : InputTurn} (ht : snapshot.turn? key = some t)
    (hversion : t.lifecycleVersion = r.lifecycleVersion)
    (h : snapshot.noPendingTurn t.sessionId r = true) : t.status.isPending = false := by
  have hall := List.all_eq_true.mp h (key, t) (KeyedTable.mem_entries_iff.mpr ht)
  by_contra hpending
  rw [Bool.not_eq_false] at hpending
  simp [hversion, hpending] at hall

theorem delayed_sweep {σ τ : SystemState} {pid lag : ℕ} {p : Sweep}
    (hp : σ.procs pid = some (.sweep p))
    (hs : delayed.step σ (.exec pid (lag, .sweep)) = some τ) :
    τ.shared = World.leave lag σ.shared (p.step (σ.shared.enter lag)) := by
  obtain ⟨p', q, hp', hexec, -⟩ := Machine.step_exec hs
  cases hp.symm.trans hp'
  obtain ⟨⟨w₁, p₁⟩, hstep, he⟩ := Option.map_eq_some_iff.mp hexec
  have hsweep : execStep pid (σ.shared.enter lag) (.sweep p) .sweep = some (w₁, p₁) := hstep
  cases execStep_cases hsweep with
  | sweep => exact (Prod.mk.inj he).1.symm

theorem sweeps_spare_unfinished_turns {D : ℕ} {σ τ : SystemState}
    (h : delayed.ReachableWhen (ShortTransactions D) FreshWorld σ) {pid lag : ℕ} {p : Sweep}
    (hp : σ.procs pid = some (.sweep p))
    (hk : p.kind = .idleTimeout ∨ p.kind = .archiveTimeout ∨ p.kind = .stopTimeout)
    (hs : delayed.step σ (.exec pid (lag, .sweep)) = some τ) {sid : SessionId} {r r' : SessionRow}
    (hr : σ.shared.db.session? sid = some r) (hr' : τ.shared.db.session? sid = some r')
    (hne : r'.status ≠ r.status) :
    ¬ ∃ key t, σ.shared.db.turn? key = some t ∧ t.sessionId = sid ∧
      t.lifecycleVersion = r.lifecycleVersion ∧ t.status.isPending = true := by
  rintro ⟨key, t, ht, rfl, hversion, hpending⟩
  have hσ := (covered_proof D).annotated (fun w hw ↦ ⟨hw.turnInv, trivial⟩) h
  obtain ⟨hok, hpatient, hcovered⟩ := hσ.assert pid _ hp
  rw [delayed_sweep hp hs] at hr'
  have hmoved : (runSweep p.settings p.snapshot p.released (σ.shared.enter lag).db
      p.kind).session? t.sessionId = some r' := hr'
  have hrow : (σ.shared.enter lag).db.session? t.sessionId = some r := hr
  obtain ⟨hnone, hold⟩ := inactive_of_moved hpatient hk hrow hmoved hne
  cases ht₀ : p.snapshot.turn? key with
  | none =>
      have hrecent := hcovered.turns key t r ht ht₀ hr
      exact absurd hrecent (not_le.mpr hold)
  | some t₀ =>
      -- The turn was in the snapshot, and a finished turn does not start again.
      obtain ⟨t₁, ht₁, hadv⟩ := hok key t₀ ht₀
      cases ht.symm.trans ht₁
      rw [hadv.sessionId] at hnone
      have hdone := not_pending_of_noPendingTurn ht₀
        (hadv.lifecycleVersion.symm.trans hversion) hnone
      have hsettled : t.status.isSettled = true :=
        hadv.settled (by rw [TurnStatus.isSettled_eq, hdone]; rfl)
      rw [TurnStatus.isSettled_eq, hpending] at hsettled
      cases hsettled

/-- The action as a transaction that began `lag` ms before its commit. -/
def late (lag : ℕ) : SystemAction → DelayedAction
  | .env e => .env (lag, e)
  | .spawn n => .spawn (lag, n)
  | .exec pid a => .exec pid (lag, a)

/-- A session is opened and left alone for more than an hour. -/
def inactiveRun : List DelayedAction :=
  openedRun.map (late 250) ++ [.env (250, .tick 3700000)]

def inactiveState : SystemState :=
  (delayed.run (.start deployment) inactiveRun).get (by decide +kernel)

def sweepingState : SystemState :=
  (delayed.step inactiveState (.spawn (250, .sweep .idleTimeout))).get (by decide +kernel)

def idleState : SystemState :=
  (delayed.step sweepingState (.exec 3 (250, .sweep))).get (by decide +kernel)

theorem sweeps_spare_unfinished_turns_idle :
    ∃ r, sweepingState.shared.db.session? 1 = some r ∧
      ¬ ∃ key t, sweepingState.shared.db.turn? key = some t ∧ t.sessionId = 1 ∧
        t.lifecycleVersion = r.lifecycleVersion ∧ t.status.isPending = true := by
  have hinactive : delayed.ReachableWhen (ShortTransactions 1000) FreshWorld inactiveState := by
    have hrun : delayed.run (.start deployment) inactiveRun = some inactiveState :=
      (Option.some_get _).symm
    refine ⟨_, deployment_fresh, .of_run ?_ hrun⟩
    simp [inactiveRun, openedRun, openRun, relayRun, late, ShortTransactions]
  have hsettings : inactiveState.shared.settings.defaultIdleTimeoutMinutes = 60 ∧
      inactiveState.shared.settings.defaultArchiveTimeoutMinutes = 120 ∧
      inactiveState.shared.settings.defaultStopTimeoutHours = 24 := by decide +kernel
  have hoks : ShortTransactions 1000 inactiveState (.spawn (250, .sweep .idleTimeout)) := by
    simp [ShortTransactions, Settings.Outlast, hsettings]
  have hsweeping : delayed.ReachableWhen (ShortTransactions 1000) FreshWorld sweepingState :=
    hinactive.step hoks (Option.some_get _).symm
  have hidle : delayed.step sweepingState (.exec 3 (250, .sweep)) = some idleState :=
    (Option.some_get _).symm
  obtain ⟨r, hr⟩ : ∃ r, sweepingState.shared.db.session? 1 = some r :=
    Option.isSome_iff_exists.mp (by decide +kernel)
  obtain ⟨r', hr'⟩ : ∃ r, idleState.shared.db.session? 1 = some r :=
    Option.isSome_iff_exists.mp (by decide +kernel)
  have hstatus : (sweepingState.shared.db.session? 1).map SessionRow.status = some .running ∧
      (idleState.shared.db.session? 1).map SessionRow.status = some .idle := by decide +kernel
  rw [hr, hr'] at hstatus
  have hne : r'.status ≠ r.status := by
    rw [Option.some.inj hstatus.1, Option.some.inj hstatus.2]
    decide
  let p : Sweep :=
    ⟨.idleTimeout, inactiveState.shared.settings, (inactiveState.shared.enter 250).db, []⟩
  have hp : sweepingState.procs 3 = some (.sweep p) := by
    have hspawn : some ⟨inactiveState.shared.leave 250 (inactiveState.shared.enter 250),
        Function.update inactiveState.procs inactiveState.next (some (.sweep p)),
        inactiveState.next + 1⟩ = some sweepingState := (Option.some_get _).symm
    have hnext : inactiveState.next = 3 := by decide +kernel
    rw [← Option.some.inj hspawn, hnext]
    simp only [Function.update_self]
  exact ⟨r, hr, sweeps_spare_unfinished_turns hsweeping hp (.inl rfl) hidle hr hr' hne⟩

end Discode
