import Discode.Commits

/-!
# What a session is for good

A session keeps its guild, its owner, its tool and its directory, and once it is bound to a
thread the two belong together in every later state.
-/

set_option autoImplicit false

namespace Discode

/-- `resolve_session_for_thread`. -/
def resolveSessionForThread (db : Database) (threadId : ThreadId) (guildId : GuildId) :
    Option (SessionId × SessionRow) :=
  db.sessions.entries.find? fun e ↦ e.2.threadId = some threadId ∧ e.2.guildId = guildId

/-- What `/start` says of a session. -/
structure SessionIdentity where
  guildId : GuildId
  ownerId : UserId
  tool : ToolName
  name : PyStr
  cwdRealpath : Path
  createdAt : Time

def SessionRow.identity (r : SessionRow) : SessionIdentity :=
  ⟨r.guildId, r.ownerId, r.tool, r.name, r.cwdRealpath, r.createdAt⟩

/-- The row of the same session at a later time. -/
structure SessionRow.Continues (r r' : SessionRow) : Prop where
  identity : r'.identity = r.identity
  threadId : ∀ threadId, r.threadId = some threadId → r'.threadId = some threadId

theorem SessionRow.Continues.guildId {r r' : SessionRow} (h : r.Continues r') :
    r'.guildId = r.guildId :=
  congrArg SessionIdentity.guildId h.identity

theorem SessionRow.Continues.refl (r : SessionRow) : r.Continues r := ⟨rfl, fun _ h ↦ h⟩

theorem SessionRow.Continues.trans {r r' r'' : SessionRow} (h : r.Continues r')
    (h' : r'.Continues r'') : r.Continues r'' :=
  ⟨h'.identity.trans h.identity, fun threadId hr ↦ h'.threadId threadId (h.threadId threadId hr)⟩

theorem SessionRow.released_continues (failed : SessionId) (rows : List SessionId)
    (s : SessionId) (r : SessionRow) : r.Continues (r.released failed rows s) := by
  unfold SessionRow.released
  split
  · exact ⟨rfl, fun _ h ↦ h⟩
  · exact .refl r

theorem SessionRow.releasedAll_continues (released : SessionId → List SessionId)
    (failed : List (SessionId × SessionRow)) (s : SessionId) (r : SessionRow) :
    r.Continues (r.releasedAll released failed s) := by
  rw [SessionRow.releasedAll_eq]
  split
  · exact ⟨rfl, fun _ h ↦ h⟩
  · exact .refl r

theorem exists_of_rel {α β : Type*} {R : α → β → Prop} {a : α} {o : Option β}
    (h : Option.Rel R (some a) o) : ∃ b, o = some b ∧ R a b := by
  cases h with
  | some h => exact ⟨_, rfl, h⟩

theorem exists_of_rel_some {α β : Type*} {R : α → β → Prop} {o : Option α} {b : β}
    (h : Option.Rel R o (some b)) : ∃ a, o = some a ∧ R a b := by
  cases h with
  | some h => exact ⟨_, rfl, h⟩

/-- The sessions are the same ones. -/
def SameSessions (db db' : Database) : Prop :=
  ∀ sid, Option.Rel SessionRow.Continues (db.session? sid) (db'.session? sid)

section

variable {f : SessionUpdate} {es : List Envelope} {db db' : Database}

theorem Updates.same (h : Updates f es db db')
    (hf : ∀ sid r, db.session? sid = some r → r.Continues (f sid r)) : SameSessions db db' := by
  intro sid
  rw [h.rows]
  cases hr : db.session? sid with
  | none => exact .none
  | some r => exact .some (hf sid r hr)

theorem Updates.same_of_only {sid : SessionId} {g : SessionRow → SessionRow}
    (h : Updates (.only sid g) es db db')
    (hg : ∀ r, db.session? sid = some r → r.Continues (g r)) : SameSessions db db' := by
  apply h.same
  intro s r hr
  unfold SessionUpdate.only
  split
  · rename_i hs
    subst hs
    exact hg r hr
  · exact .refl r

theorem Updates.same_of_whenDue {snapshot : Database} {p : SessionId → SessionRow → Bool}
    {g : SessionRow → SessionRow} (h : Updates (.whenDue snapshot p g) es db db')
    (hg : ∀ r : SessionRow, r.Continues (g r)) : SameSessions db db' := by
  apply h.same
  intro s r _
  unfold SessionUpdate.whenDue
  split
  · exact hg r
  · exact .refl r

/-- A new session leaves the others the same. -/
theorem Creates.same {req : CreateRequest} {predecessor : Option SessionId}
    (h : Creates req predecessor db db') {sid : SessionId} (hne : sid ≠ req.sessionId) :
    Option.Rel SessionRow.Continues (db.session? sid) (db'.session? sid) := by
  rw [h.rows, if_neg hne]
  cases db.session? sid with
  | none => exact .none
  | some r =>
      refine .some ?_
      dsimp only
      split
      · exact ⟨rfl, fun _ h ↦ h⟩
      · exact .refl r

theorem runSweep_same (settings : Settings) (snapshot : Database)
    (released : SessionId → List SessionId) (db : Database) (kind : SweepKind) :
    SameSessions db (runSweep settings snapshot released db kind) := by
  have helsewhere : ∀ db', Updates (fun _ r ↦ r) [] db db' → SameSessions db db' :=
    fun db' h ↦ h.same fun _ r _ ↦ .refl r
  cases kind with
  | creatingWatchdog =>
      have h := sweepCreatingWatchdog_updates settings snapshot released db
      apply h.same
      intro sid r _
      refine SessionRow.Continues.trans ?_ (SessionRow.releasedAll_continues _ _ _ _)
      unfold SessionUpdate.whenDue
      split <;> exact ⟨rfl, fun _ h ↦ h⟩
  | resumingWatchdog =>
      obtain ⟨p, -, h⟩ := sweepResumingWatchdog_updates settings snapshot db
      exact h.same_of_whenDue fun _ ↦ ⟨rfl, fun _ h ↦ h⟩
  | stoppingWatchdog =>
      obtain ⟨p, -, h⟩ := sweepStoppingWatchdog_updates settings snapshot db
      exact h.same_of_whenDue fun _ ↦ ⟨rfl, fun _ h ↦ h⟩
  | idleTimeout =>
      have h := sweepIdleTimeout_updates settings snapshot db
      exact h.same_of_whenDue fun _ ↦ ⟨rfl, fun _ h ↦ h⟩
  | archiveTimeout =>
      obtain ⟨es, -, h⟩ := sweepArchiveTimeout_updates settings snapshot db
      exact h.same_of_whenDue fun _ ↦ ⟨rfl, fun _ h ↦ h⟩
  | stopTimeout =>
      obtain ⟨es, -, h⟩ := sweepStopTimeout_updates settings snapshot db
      exact h.same_of_whenDue fun _ ↦ ⟨rfl, fun _ h ↦ h⟩
  | heartbeatOrphans =>
      obtain ⟨p, -, h⟩ := sweepRunnerHeartbeatOrphans_updates settings snapshot db
      exact h.same_of_whenDue fun _ ↦ ⟨rfl, fun _ h ↦ h⟩
  | events count => exact helsewhere _ (.elsewhere rfl rfl)
  | outbox batch => exact helsewhere _ (.elsewhere rfl rfl)
  | turnResults batch => exact helsewhere _ (.elsewhere rfl rfl)

end

/-- A transaction keeps all sessions, but for the one that a create saga adds. -/
theorem commit_same {σ : SystemState} {db' : Database} {a : SystemAction} (h : Commit σ db' a) :
    SameSessions σ.shared.db db' ∨ ∃ pid req snapshot predecessor,
      σ.procs pid = some (.createSaga ⟨req, .selecting snapshot⟩) ∧
        Creates req predecessor σ.shared.db db' := by
  cases h with
  | elsewhere _ h => exact .inl (h.same fun _ r _ ↦ .refl r)
  | touch _ _ _ _ h => exact .inl (h.same_of_only fun _ _ ↦ ⟨rfl, fun _ h ↦ h⟩)
  | record _ h =>
      left
      apply h.same_of_only
      intro r _
      split
      · exact ⟨rfl, fun _ h ↦ h⟩
      · exact .refl r
  | bind _ hrow hnone h =>
      left
      apply h.same_of_only
      intro r hr
      cases hr.symm.trans hrow
      refine ⟨rfl, fun threadId hthread ↦ ?_⟩
      rw [hnone] at hthread
      cases hthread
  | repair _ hf _ h =>
      left
      apply h.same_of_only
      intro r _
      obtain ⟨reason, attempts, heq, -⟩ := hf r
      rw [heq]
      exact ⟨rfl, fun _ h ↦ h⟩
  | stop hsaga =>
      left
      obtain ⟨sess, -, -, h⟩ := runStopSaga_updates hsaga
      exact h.same_of_only fun _ _ ↦ ⟨rfl, fun _ h ↦ h⟩
  | archive hsaga =>
      left
      obtain ⟨sess, es, -, -, -, h⟩ := runArchiveSaga_updates hsaga
      exact h.same_of_only fun _ _ ↦ ⟨rfl, fun _ h ↦ h⟩
  | resume hsaga =>
      left
      obtain ⟨sess, -, -, h⟩ := runResumeSaga_updates hsaga
      exact h.same_of_only fun _ _ ↦ ⟨rfl, fun _ h ↦ h⟩
  | restart hsaga =>
      left
      obtain ⟨sess, -, -, h⟩ := runRestartSaga_updates hsaga
      exact h.same_of_only fun _ _ ↦ ⟨rfl, fun _ h ↦ h⟩
  | confirmStop _ _ _ h => exact .inl (h.same_of_only fun _ _ ↦ ⟨rfl, fun _ h ↦ h⟩)
  | create hp h => exact .inr ⟨_, _, _, _, hp, h⟩
  | failCreation _ _ _ _ h =>
      left
      apply h.same
      intro sid r _
      refine SessionRow.Continues.trans ?_ (SessionRow.released_continues _ _ _ _)
      unfold SessionUpdate.only
      split <;> exact ⟨rfl, fun _ h ↦ h⟩
  | markRunning _ _ _ h => exact .inl (h.same_of_only fun _ _ ↦ ⟨rfl, fun _ h ↦ h⟩)
  | refuse _ _ _ _ h => exact .inl (h.same_of_only fun _ _ ↦ ⟨rfl, fun _ h ↦ h⟩)
  | resumed _ _ h => exact .inl (h.same_of_only fun _ _ ↦ ⟨rfl, fun _ h ↦ h⟩)
  | orphan _ _ _ h => exact .inl (h.same_of_only fun _ _ ↦ ⟨rfl, fun _ h ↦ h⟩)
  | spurious _ _ _ h => exact .inl (h.same fun _ r _ ↦ .refl r)
  | recover _ _ _ _ h =>
      left
      apply h.same_of_only
      intro r _
      split
      · exact ⟨rfl, fun _ h ↦ h⟩
      · exact .refl r
  | sweep _ _ hdb => exact .inl (hdb ▸ runSweep_same _ _ _ _ _)

/-- Every session of a state is the same in every later one. -/
theorem reaches_continues {σ τ : SystemState} (h : system.Reaches σ τ) {sid : SessionId}
    {r : SessionRow} (hr : σ.shared.db.session? sid = some r) :
    ∃ r', τ.shared.db.session? sid = some r' ∧ r.Continues r' := by
  refine h.preserves (I := fun τ ↦ ∃ r', τ.shared.db.session? sid = some r' ∧ r.Continues r') ?_
    ⟨r, hr, .refl r⟩
  rintro ρ a τ ⟨r', hr', hcontinues⟩ _ hstep
  rcases commit_same (step_commit hstep) with hsame | ⟨pid, req, snapshot, predecessor, -, hnew⟩
  · have hrel := hsame sid
    rw [hr'] at hrel
    obtain ⟨r'', hr'', hlater⟩ := exists_of_rel hrel
    exact ⟨r'', hr'', hcontinues.trans hlater⟩
  · have hne : sid ≠ req.sessionId := by
      rintro rfl
      rw [hnew.fresh] at hr'
      cases hr'
    have hrel := hnew.same hne
    rw [hr'] at hrel
    obtain ⟨r'', hr'', hlater⟩ := exists_of_rel hrel
    exact ⟨r'', hr'', hcontinues.trans hlater⟩

/-- A session whose runner has been told to begin. -/
def begunState : SystemState :=
  (system.run (.start deployment) (openRun 0 1 7 (pyStr "demo") 1 none none)).get
    (by decide +kernel)

/-- Its owner stops it. -/
def haltedState : SystemState :=
  (system.run begunState [.env (.stop 1 1 (some 5))]).get (by decide +kernel)

theorem reaches_continues_halted : ∃ r r', begunState.shared.db.session? 1 = some r ∧
    haltedState.shared.db.session? 1 = some r' ∧ r.Continues r' := by
  obtain ⟨r, hr⟩ : ∃ r, begunState.shared.db.session? 1 = some r :=
    Option.isSome_iff_exists.mp (by decide +kernel)
  have hreach : system.Reaches begunState haltedState :=
    ProcessPool.Machine.reaches_of_run (Option.some_get _).symm
  obtain ⟨r', hr', hcontinues⟩ := reaches_continues hreach hr
  exact ⟨r, r', hr, hr', hcontinues⟩

end Discode
