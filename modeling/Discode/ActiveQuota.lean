import Discode.Bookkeeping
import Discode.Commits
import Discode.Transitions

/-!
# The quota of active sessions

A creation counts the sessions of its owner under the owner's lock before it inserts one
more.  Resume, restart and the stop sweep bring sessions back without a count.
-/

set_option autoImplicit false

namespace Discode

open ProcessPool (Machine)

/-- The statuses that count toward the quota. -/
def Status.isActive (s : Status) : Bool := s ∉ [.archived, .stopped, .failed, .orphaned]

/-- An updated row counts only if it did before, or is brought `back`. -/
structure SessionRow.Recounts (back : Bool) (r r' : SessionRow) : Prop where
  guildId : r'.guildId = r.guildId
  ownerId : r'.ownerId = r.ownerId
  active : r'.status.isActive = true → r.status.isActive = true ∨ back = true

theorem Status.isActive_of_isLive {s : Status} (h : s.isLive = true) : s.isActive = true := by
  cases s <;> first | rfl | cases h

namespace SessionRow.Recounts

variable {back : Bool} {r r' : SessionRow}

theorem refl (r : SessionRow) : r.Recounts back r :=
  ⟨rfl, rfl, .inl⟩

theorem of_active (hguild : r'.guildId = r.guildId) (howner : r'.ownerId = r.ownerId)
    (h : r.status.isActive = true) : r.Recounts back r' :=
  ⟨hguild, howner, fun _ ↦ .inl h⟩

theorem of_not_active (hguild : r'.guildId = r.guildId) (howner : r'.ownerId = r.ownerId)
    (h : r'.status.isActive = false) : r.Recounts back r' :=
  ⟨hguild, howner, fun hactive ↦ by rw [h] at hactive; cases hactive⟩

theorem released (h : r.Recounts back r') (failed : SessionId) (rows : List SessionId)
    (s : SessionId) : r.Recounts back (r'.released failed rows s) := by
  unfold SessionRow.released
  split
  · exact ⟨h.guildId, h.ownerId, h.active⟩
  · exact h

theorem releasedAll (h : r.Recounts back r') (released : SessionId → List SessionId)
    (failed : List (SessionId × SessionRow)) (s : SessionId) :
    r.Recounts back (r'.releasedAll released failed s) := by
  rw [SessionRow.releasedAll_eq]
  split
  · exact ⟨h.guildId, h.ownerId, h.active⟩
  · exact h

end SessionRow.Recounts

theorem Status.isActive_of_mem {s : Status} {l : List Status} (h : s ∈ l)
    (hl : ∀ s ∈ l, s.isActive = true) : s.isActive = true :=
  hl s h

/-- The sessions of an owner that an update brings back. -/
def Database.broughtBack (db : Database) (back : SessionId → SessionRow → Bool) (guildId : GuildId)
    (ownerId : UserId) : ℕ :=
  (db.sessions.select fun sid r ↦ r.guildId = guildId ∧ r.ownerId = ownerId ∧ back sid r).length

section

variable {f : SessionUpdate} {es : List Envelope} {db db' : Database}
  {back : SessionId → SessionRow → Bool}

theorem Database.active_iff {guildId : GuildId} {ownerId : UserId} {r : SessionRow} :
    decide (r.guildId = guildId ∧ r.ownerId = ownerId ∧
      r.status ∉ [.archived, .stopped, .failed, .orphaned]) = true ↔
    r.guildId = guildId ∧ r.ownerId = ownerId ∧ r.status.isActive = true := by
  simp [Status.isActive]

theorem Updates.activeSessionCount_le (h : Updates f es db db')
    (hf : ∀ sid r, db.session? sid = some r → r.Recounts (back sid r) (f sid r))
    (guildId : GuildId) (ownerId : UserId) : db'.activeSessionCount guildId ownerId ≤
      db.activeSessionCount guildId ownerId + db.broughtBack back guildId ownerId := by
  rw [Database.broughtBack, ← List.length_map Prod.fst]
  refine KeyedTable.length_select_le fun sid r' hr' hactive ↦ ?_
  have hr' : db'.session? sid = some r' := hr'
  rw [h.rows, Option.map_eq_some_iff] at hr'
  obtain ⟨r, hr, rfl⟩ := hr'
  obtain ⟨hguild, howner, hactive⟩ := Database.active_iff.mp hactive
  have hrec := hf sid r hr
  rw [hrec.guildId] at hguild
  rw [hrec.ownerId] at howner
  rcases hrec.active hactive with hold | hback
  · exact .inl ⟨r, hr, Database.active_iff.mpr ⟨hguild, howner, hold⟩⟩
  · refine .inr (List.mem_map.mpr ⟨(sid, r), KeyedTable.mem_select_iff.mpr ⟨hr, ?_⟩, rfl⟩)
    exact decide_eq_true ⟨hguild, howner, hback⟩

theorem Updates.recounts_only {sid : SessionId} {g : SessionRow → SessionRow}
    (hg : ∀ r, db.session? sid = some r → r.Recounts (back sid r) (g r)) :
    ∀ s r, db.session? s = some r → r.Recounts (back s r) (SessionUpdate.only sid g s r) := by
  intro s r hr
  unfold SessionUpdate.only
  split
  · rename_i hs
    subst hs
    exact hg r hr
  · exact .refl r

theorem Updates.recounts_whenDue {snapshot : Database} {p : SessionId → SessionRow → Bool}
    {g : SessionRow → SessionRow}
    (hg : ∀ s r, snapshot.due p s r = true → r.Recounts (back s r) (g r)) (s : SessionId)
    (r : SessionRow) : r.Recounts (back s r) (SessionUpdate.whenDue snapshot p g s r) := by
  unfold SessionUpdate.whenDue
  split
  · rename_i hdue
    exact hg s r hdue
  · exact .refl r

theorem Creates.activeSessionCount_le {req : CreateRequest} {predecessor : Option SessionId}
    (h : Creates req predecessor db db') (guildId : GuildId) (ownerId : UserId) :
    db'.activeSessionCount guildId ownerId ≤ db.activeSessionCount guildId ownerId +
      if req.guildId = guildId ∧ req.ownerId = ownerId then 1 else 0 := by
  let fresh : List SessionId :=
    if req.guildId = guildId ∧ req.ownerId = ownerId then [req.sessionId] else []
  have hlen : fresh.length = if req.guildId = guildId ∧ req.ownerId = ownerId then 1 else 0 := by
    simp only [fresh]
    split <;> rfl
  rw [← hlen]
  refine KeyedTable.length_select_le fun sid r' hr' hactive ↦ ?_
  have hr' : db'.session? sid = some r' := hr'
  obtain ⟨hguild, howner, hactive⟩ := Database.active_iff.mp hactive
  rw [h.rows] at hr'
  split at hr'
  · rename_i hsid
    cases hr'
    right
    have howned : req.guildId = guildId ∧ req.ownerId = ownerId := ⟨hguild, howner⟩
    simp only [fresh, if_pos howned, hsid, List.mem_singleton]
  · obtain ⟨r, hr, rfl⟩ := Option.map_eq_some_iff.mp hr'
    refine .inl ⟨r, hr, Database.active_iff.mpr ?_⟩
    split at hguild <;> split at howner <;> split at hactive <;> exact ⟨hguild, howner, hactive⟩

end

/-! ## The steps -/

/-- A saga past its count will insert a session. -/
def CreateSagaStage.hasCounted : CreateSagaStage → Bool
  | counted | selecting _ => true
  | _ => false

/-- The step brings the session back without asking for the quota. -/
def revives (σ : SystemState) : SystemAction → SessionId → SessionRow → Bool
  | .env (.resume sid _ _), s, r => s = sid ∧ r.status = .archived
  | .env (.restart sid _), s, r => s = sid ∧ r.status = .stopped
  | .exec pid .sweep, s, r =>
      match σ.procs pid with
      | some (.sweep p) => p.kind = .stopTimeout ∧ r.status = .archived ∧ r.hostId.isSome ∧
          p.snapshot.due (stopDue p.settings p.snapshot) s r
      | _ => false
  | _, _, _ => false

/-- The sessions of the owner that the step brings back. -/
def revivals (σ : SystemState) (a : SystemAction) (guildId : GuildId) (ownerId : UserId) : ℕ :=
  σ.shared.db.broughtBack (revives σ a) guildId ownerId

/-- The transaction inserts a session of the owner, who was counted before. -/
def InsertsOne (σ : SystemState) (a : SystemAction) (guildId : GuildId) (ownerId : UserId) : Prop :=
  ∃ pid p predecessor, a = .exec pid (.createSaga (.commit predecessor)) ∧
    σ.procs pid = some (.createSaga p) ∧ p.stage.hasCounted = true ∧ p.owner = (guildId, ownerId)

theorem sweep_activeSessionCount {σ : SystemState} {pid : ℕ} {p : Sweep}
    (hp : σ.procs pid = some (.sweep p)) (guildId : GuildId) (ownerId : UserId) :
    (runSweep p.settings p.snapshot p.released σ.shared.db p.kind).activeSessionCount
        guildId ownerId ≤
      σ.shared.db.activeSessionCount guildId ownerId +
        revivals σ (.exec pid .sweep) guildId ownerId := by
  have hupdates : ∀ {f es db'}, Updates f es σ.shared.db db' →
      (∀ s r, σ.shared.db.session? s = some r →
        r.Recounts (revives σ (.exec pid .sweep) s r) (f s r)) →
      db'.activeSessionCount guildId ownerId ≤ σ.shared.db.activeSessionCount guildId ownerId +
        revivals σ (.exec pid .sweep) guildId ownerId :=
    fun h hf ↦ h.activeSessionCount_le hf guildId ownerId
  cases hk : p.kind with
  | creatingWatchdog =>
      have hupd := sweepCreatingWatchdog_updates p.settings p.snapshot p.released σ.shared.db
      refine hupdates hupd fun s r _ ↦ .releasedAll ?_ _ _ s
      refine Updates.recounts_whenDue (fun _ r _ ↦ ?_) s r
      exact .of_not_active rfl rfl rfl
  | resumingWatchdog =>
      obtain ⟨q, hq, hupd⟩ := sweepResumingWatchdog_updates p.settings p.snapshot σ.shared.db
      refine hupdates hupd fun s r _ ↦ Updates.recounts_whenDue (fun _ r _ ↦ ?_) s r
      exact .of_not_active rfl rfl rfl
  | stoppingWatchdog =>
      obtain ⟨q, hq, hupd⟩ := sweepStoppingWatchdog_updates p.settings p.snapshot σ.shared.db
      refine hupdates hupd fun s r _ ↦ Updates.recounts_whenDue (fun _ r _ ↦ ?_) s r
      exact .of_not_active rfl rfl rfl
  | idleTimeout =>
      have hupd := sweepIdleTimeout_updates p.settings p.snapshot σ.shared.db
      refine hupdates hupd fun s r _ ↦ Updates.recounts_whenDue (fun _ r hdue ↦ ?_) s r
      refine .of_active rfl rfl ?_
      have hrunning := (of_decide_eq_true (Bool.and_eq_true_iff.mp hdue).1).1
      rw [hrunning]
      rfl
  | archiveTimeout =>
      obtain ⟨es, -, hupd⟩ := sweepArchiveTimeout_updates p.settings p.snapshot σ.shared.db
      refine hupdates hupd fun s r _ ↦ Updates.recounts_whenDue (fun _ r _ ↦ ?_) s r
      exact .of_not_active rfl rfl rfl
  | stopTimeout =>
      obtain ⟨es, -, hupd⟩ := sweepStopTimeout_updates p.settings p.snapshot σ.shared.db
      refine hupdates hupd fun s r _ ↦ Updates.recounts_whenDue (fun s r hdue ↦ ?_) s r
      refine ⟨rfl, rfl, fun hactive ↦ ?_⟩
      have hhost : r.hostId.isSome = true := by
        by_contra hnone
        rw [if_neg hnone] at hactive
        cases hactive
      by_cases harchived : r.status = .archived
      · right
        simp [revives, hp, hk, harchived, hhost, hdue]
      · left
        have hs := (of_decide_eq_true (Bool.and_eq_true_iff.mp hdue).1).1
        simp only [List.mem_cons, List.not_mem_nil, or_false] at hs
        rcases hs with hs | hs | hs
        · rw [hs]; rfl
        · rw [hs]; rfl
        · exact absurd hs harchived
  | heartbeatOrphans =>
      obtain ⟨q, hq, hupd⟩ :=
        sweepRunnerHeartbeatOrphans_updates p.settings p.snapshot σ.shared.db
      refine hupdates hupd fun s r _ ↦ Updates.recounts_whenDue (fun _ r _ ↦ ?_) s r
      exact .of_not_active rfl rfl rfl
  | events count => exact hupdates (.elsewhere rfl rfl) fun _ r _ ↦ .refl r
  | outbox batch => exact hupdates (.elsewhere rfl rfl) fun _ r _ ↦ .refl r
  | turnResults batch => exact hupdates (.elsewhere rfl rfl) fun _ r _ ↦ .refl r

theorem commit_activeSessionCount {σ : SystemState} {db' : Database} {a : SystemAction}
    (h : Commit σ db' a) (guildId : GuildId) (ownerId : UserId) :
    db'.activeSessionCount guildId ownerId ≤ σ.shared.db.activeSessionCount guildId ownerId +
        revivals σ a guildId ownerId ∨
    InsertsOne σ a guildId ownerId ∧
      db'.activeSessionCount guildId ownerId ≤ σ.shared.db.activeSessionCount guildId ownerId + 1 := by
  have hupdates : ∀ {f es}, Updates f es σ.shared.db db' →
      (∀ s r, σ.shared.db.session? s = some r → r.Recounts (revives σ a s r) (f s r)) →
      db'.activeSessionCount guildId ownerId ≤ σ.shared.db.activeSessionCount guildId ownerId +
        revivals σ a guildId ownerId := fun h hf ↦ h.activeSessionCount_le hf guildId ownerId
  cases h with
  | elsewhere _ h => exact .inl (hupdates h fun _ r _ ↦ .refl r)
  | touch _ hrow hlive _ h =>
      refine .inl (hupdates h (Updates.recounts_only fun r hr ↦ .of_active rfl rfl ?_))
      cases hrow.symm.trans hr
      exact Status.isActive_of_isLive hlive
  | record _ h =>
      refine .inl (hupdates h (Updates.recounts_only fun r hr ↦ ?_))
      split
      · exact ⟨rfl, rfl, .inl⟩
      · exact .refl r
  | bind _ _ _ h =>
      exact .inl (hupdates h (Updates.recounts_only fun r hr ↦ ⟨rfl, rfl, .inl⟩))
  | repair _ hf _ h =>
      refine .inl (hupdates h (Updates.recounts_only fun r hr ↦ ?_))
      obtain ⟨reason, attempts, heq, -⟩ := hf r
      rw [heq]
      exact ⟨rfl, rfl, .inl⟩
  | stop hsaga =>
      obtain ⟨sess, hsess, hs, h⟩ := runStopSaga_updates hsaga
      refine .inl (hupdates h (Updates.recounts_only fun r hr ↦ .of_active rfl rfl ?_))
      cases hsess.symm.trans hr
      exact Status.isActive_of_mem hs (by decide)
  | archive hsaga =>
      obtain ⟨sess, es, -, -, -, h⟩ := runArchiveSaga_updates hsaga
      exact .inl (hupdates h (Updates.recounts_only fun r hr ↦ .of_not_active rfl rfl rfl))
  | resume hsaga =>
      obtain ⟨sess, hsess, hs, h⟩ := runResumeSaga_updates hsaga
      refine .inl (hupdates h (Updates.recounts_only fun r hr ↦ ⟨rfl, rfl, fun _ ↦ .inr ?_⟩))
      cases hsess.symm.trans hr
      simp [revives, hs]
  | restart hsaga =>
      obtain ⟨sess, hsess, hs, h⟩ := runRestartSaga_updates hsaga
      refine .inl (hupdates h (Updates.recounts_only fun r hr ↦ ⟨rfl, rfl, fun _ ↦ ?_⟩))
      cases hsess.symm.trans hr
      simp only [List.mem_cons, List.not_mem_nil, or_false] at hs
      rcases hs with hs | hs | hs
      · exact .inl (by rw [hs]; rfl)
      · exact .inl (by rw [hs]; rfl)
      · exact .inr (by simp [revives, hs])
  | confirmStop _ _ _ h =>
      exact .inl (hupdates h (Updates.recounts_only fun r hr ↦ .of_not_active rfl rfl rfl))
  | @create pid req snapshot predecessor hp h =>
      have hle := h.activeSessionCount_le guildId ownerId
      split at hle
      · rename_i howner
        obtain ⟨rfl, rfl⟩ := howner
        exact .inr ⟨⟨pid, _, predecessor, rfl, hp, rfl, rfl⟩, hle⟩
      · exact .inl (hle.trans (Nat.le_add_right _ _))
  | failCreation _ _ _ _ h =>
      refine .inl (hupdates h fun s r hr ↦
        .released (Updates.recounts_only (fun r _ ↦ ?_) s r hr) _ _ s)
      exact .of_not_active rfl rfl rfl
  | markRunning _ hrow hs h =>
      refine .inl (hupdates h (Updates.recounts_only fun r hr ↦ .of_active rfl rfl ?_))
      cases hrow.symm.trans hr
      rw [hs]
      rfl
  | refuse _ _ _ _ h =>
      exact .inl (hupdates h (Updates.recounts_only fun r hr ↦ .of_not_active rfl rfl rfl))
  | resumed _ hr h =>
      obtain ⟨hget, -, hs⟩ := resumingRow?_eq_some.mp hr
      refine .inl (hupdates h (Updates.recounts_only fun r hr ↦ .of_active rfl rfl ?_))
      cases hget.symm.trans hr
      rw [hs]
      rfl
  | orphan _ _ _ h =>
      exact .inl (hupdates h (Updates.recounts_only fun r hr ↦ .of_not_active rfl rfl rfl))
  | spurious _ _ _ h => exact .inl (hupdates h fun _ r _ ↦ .refl r)
  | recover _ _ hstatus _ h =>
      refine .inl (hupdates h (Updates.recounts_only fun r hr ↦ ?_))
      split
      · refine .of_not_active rfl rfl ?_
        rcases hstatus with rfl | rfl <;> rfl
      · exact .refl r
  | sweep hp _ hdb =>
      subst hdb
      exact .inl (sweep_activeSessionCount hp guildId ownerId)

/-! ## Runs -/

/-- Operators leave the quota alone. -/
def QuotaFixed (σ : SystemState) (a : SystemAction) : Prop :=
  ∀ settings redactor, a = .env (.configure settings redactor) →
    settings.maxActiveSessionsPerUser = σ.shared.settings.maxActiveSessionsPerUser

/-- The owner has a creation under way that has counted. -/
def Reserved (σ : SystemState) (guildId : GuildId) (ownerId : UserId) : Prop :=
  ∃ pid p, σ.procs pid = some (.createSaga p) ∧ p.stage.hasCounted = true ∧
    p.owner = (guildId, ownerId)

/-- The quota stays as it is, and who brings sessions back finds room for them, also beside a
creation that has counted. -/
structure RevivesWithinQuota (σ : SystemState) (a : SystemAction) : Prop where
  fixed : QuotaFixed σ a
  room : ∀ guildId ownerId, 0 < revivals σ a guildId ownerId →
    σ.shared.db.activeSessionCount guildId ownerId + revivals σ a guildId ownerId ≤
      σ.shared.settings.maxActiveSessionsPerUser ∧
    (Reserved σ guildId ownerId →
      σ.shared.db.activeSessionCount guildId ownerId + revivals σ a guildId ownerId <
        σ.shared.settings.maxActiveSessionsPerUser)

theorem RevivesWithinQuota.of_not_revives {σ : SystemState} {a : SystemAction}
    (hfixed : QuotaFixed σ a) (h : ∀ s r, revives σ a s r = false) : RevivesWithinQuota σ a := by
  refine ⟨hfixed, fun guildId ownerId hpos ↦ ?_⟩
  have hnone : revivals σ a guildId ownerId = 0 := by
    simp [revivals, Database.broughtBack, KeyedTable.select, h]
  omega

structure QuotaInv (σ : SystemState) : Prop where
  within : ∀ guildId ownerId, σ.shared.db.activeSessionCount guildId ownerId ≤
    σ.shared.settings.maxActiveSessionsPerUser
  room : ∀ guildId ownerId, Reserved σ guildId ownerId →
    σ.shared.db.activeSessionCount guildId ownerId < σ.shared.settings.maxActiveSessionsPerUser

theorem RevivesWithinQuota.limit {σ τ : SystemState} {a : SystemAction}
    (h : RevivesWithinQuota σ a) (hs : system.step σ a = some τ) :
    τ.shared.settings.maxActiveSessionsPerUser = σ.shared.settings.maxActiveSessionsPerUser := by
  by_cases ha : ∃ settings redactor, a = .env (.configure settings redactor)
  · obtain ⟨settings, redactor, rfl⟩ := ha
    cases hs
    exact h.fixed settings redactor rfl
  · have hsame := step_settings hs fun settings redactor heq ↦ ha ⟨settings, redactor, heq⟩
    rw [hsame]

theorem CreateSagaStage.isLocked_of_hasCounted {s : CreateSagaStage} (h : s.hasCounted = true) :
    s.isLocked = true := by
  cases s with
  | start => cases h
  | locked => cases h
  | counted => rfl
  | selecting snapshot => rfl

/-- Creations of one owner exclude each other: none has counted after one has committed. -/
theorem not_reserved_of_insertsOne {σ τ : SystemState} (hσ : SystemReachable σ)
    {a : SystemAction} (hs : system.step σ a = some τ) {guildId : GuildId} {ownerId : UserId}
    (h : InsertsOne σ a guildId ownerId) : ¬ Reserved τ guildId ownerId := by
  rintro ⟨pid', q, hq, hcounted', howner'⟩
  obtain ⟨pid, p, predecessor, rfl, hp, hcounted, howner⟩ := h
  rcases Machine.step_procs hs hq with hold | ⟨n, ha, -⟩ | ⟨b, p₀, ha, -, hb⟩
  · have hlock := createLock_held hσ hp (CreateSagaStage.isLocked_of_hasCounted hcounted)
    have hlock' := createLock_held hσ hold (CreateSagaStage.isLocked_of_hasCounted hcounted')
    rw [howner'] at hlock'
    rw [howner, hlock'] at hlock
    cases hlock
    obtain ⟨_, r, -, hb, hprocs⟩ := Machine.step_exec hs
    rw [hprocs, Function.update_self] at hq
    subst hq
    obtain ⟨p₁, c, -, hc, hstep⟩ := execStep_createSaga hb
    cases hc
    exact hstep.not_commit
  · cases ha
  · cases ha
    obtain ⟨p₁, c, -, hc, hstep⟩ := execStep_createSaga hb
    cases hc
    exact hstep.not_commit

/-- Who has counted now had counted before, or counts now. -/
theorem Reserved.of_step {σ τ : SystemState} {a : SystemAction} {guildId : GuildId}
    {ownerId : UserId} (h : Reserved τ guildId ownerId) (hs : system.step σ a = some τ) :
    Reserved σ guildId ownerId ∨ τ.shared = σ.shared ∧
      σ.shared.db.activeSessionCount guildId ownerId <
        σ.shared.settings.maxActiveSessionsPerUser := by
  obtain ⟨pid, q, hq, hcounted, howner⟩ := h
  rcases Machine.step_procs hs hq with hold | ⟨n, -, -, hn⟩ | ⟨b, p, rfl, hp, hb⟩
  · exact .inl ⟨pid, q, hold, hcounted, howner⟩
  · have hspawn : spawnStep pid σ.shared n = some (τ.shared, .createSaga q) := hn
    rw [spawnStep_createSaga hspawn] at hcounted
    cases hcounted
  · obtain ⟨p₀, c, rfl, rfl, hstep⟩ := execStep_createSaga hb
    generalize τ.shared = w at hstep ⊢
    cases hstep with
    | acquire => cases hcounted
    | count _ hw hcount =>
        obtain ⟨rfl, rfl⟩ := Prod.mk.inj howner
        exact .inr ⟨hw, hcount⟩
    | beginSelect hstage => exact .inl ⟨pid, p₀, hp, by rw [hstage]; rfl, howner⟩

theorem QuotaInv.step {σ τ : SystemState} {a : SystemAction} (h : QuotaInv σ)
    (hσ : SystemReachable σ) (hok : RevivesWithinQuota σ a) (hs : system.step σ a = some τ) :
    QuotaInv τ := by
  have hlimit := hok.limit hs
  constructor
  · intro guildId ownerId
    rw [hlimit]
    rcases commit_activeSessionCount (step_commit hs) guildId ownerId with hle | ⟨hone, hle⟩
    · rcases Nat.eq_zero_or_pos (revivals σ a guildId ownerId) with hzero | hpos
      · have hwithin := h.within guildId ownerId
        omega
      · exact hle.trans (hok.room guildId ownerId hpos).1
    · obtain ⟨pid, p, -, -, hp, hcounted, howner⟩ := hone
      exact hle.trans (h.room guildId ownerId ⟨pid, p, hp, hcounted, howner⟩)
  · intro guildId ownerId hreserved
    rw [hlimit]
    rcases commit_activeSessionCount (step_commit hs) guildId ownerId with hle | ⟨hone, hle⟩
    · rcases hreserved.of_step hs with hbefore | ⟨hsame, hcount⟩
      · rcases Nat.eq_zero_or_pos (revivals σ a guildId ownerId) with hzero | hpos
        · have hroom := h.room guildId ownerId hbefore
          omega
        · exact hle.trans_lt ((hok.room guildId ownerId hpos).2 hbefore)
      · rw [hsame]
        exact hcount
    · exact absurd hreserved (not_reserved_of_insertsOne hσ hs hone)

/-- In every run in which sessions are brought back only within the quota, no owner ever has
more active sessions than it allows. -/
theorem active_sessions_within_quota {σ : SystemState}
    (h : system.ReachableWhen RevivesWithinQuota FreshWorld σ) (guildId : GuildId)
    (ownerId : UserId) : σ.shared.db.activeSessionCount guildId ownerId ≤
      σ.shared.settings.maxActiveSessionsPerUser := by
  have hinv : QuotaInv σ := by
    refine h.invariant ?_ fun σ a τ hσ hinv hok hs ↦ hinv.step hσ.reachable hok hs
    rintro w ⟨settings, redactor, rfl⟩
    refine ⟨fun _ _ ↦ Nat.zero_le _, ?_⟩
    rintro _ _ ⟨pid, p, hp, -⟩
    cases hp
  exact hinv.within guildId ownerId

/-- A deployment that allows every user one active session. -/
def smallDeployment : World :=
  .init { Settings.default with maxActiveSessionsPerUser := 1 } ⟨.asciiOnly, []⟩

/-- The owner archives session 1 and starts session 2 under another name. -/
def secondSessionRun : List SystemAction :=
  openedRun ++ [.env (.archive 1 1),
    .spawn (.createSaga ⟨2, 1, 1, 1, pyStr "other", 1, 5, some 8, none⟩),
    .exec 3 (.createSaga .acquire), .exec 3 (.createSaga .count),
    .exec 3 (.createSaga .beginSelect), .exec 3 (.createSaga (.commit none))]

def secondSessionState : SystemState :=
  (system.run (.start smallDeployment) secondSessionRun).get (by decide +kernel)

theorem secondSessionState_run :
    system.run (.start smallDeployment) secondSessionRun = some secondSessionState :=
  (Option.some_get _).symm

/-- Session 1 is resumed by its id. -/
def overQuotaState : SystemState :=
  (system.step secondSessionState (.env (.resume 1 1 none))).get (by decide +kernel)

theorem resume_exceeds_quota :
    ¬ ∀ (σ : SystemState) (guildId : GuildId) (ownerId : UserId),
      system.ReachableWhen QuotaFixed FreshWorld σ →
      σ.shared.db.activeSessionCount guildId ownerId ≤
        σ.shared.settings.maxActiveSessionsPerUser := by
  intro hclaim
  have hsecond : system.ReachableWhen QuotaFixed FreshWorld secondSessionState := by
    refine ⟨smallDeployment, ⟨_, _, rfl⟩, .of_run ?_ secondSessionState_run⟩
    simp [secondSessionRun, openedRun, openRun, relayRun, QuotaFixed]
  have hstep : system.step secondSessionState (.env (.resume 1 1 none)) = some overQuotaState :=
    (Option.some_get _).symm
  have hover : system.ReachableWhen QuotaFixed FreshWorld overQuotaState :=
    hsecond.step (fun _ _ ha ↦ by cases ha) hstep
  have hcount : overQuotaState.shared.db.activeSessionCount 1 1 = 2 ∧
      overQuotaState.shared.settings.maxActiveSessionsPerUser = 1 := by decide +kernel
  have hle := hclaim overQuotaState 1 1 hover
  omega

theorem active_sessions_within_quota_second :
    secondSessionState.shared.db.activeSessionCount 1 1 ≤
      secondSessionState.shared.settings.maxActiveSessionsPerUser := by
  have hreach : system.ReachableWhen RevivesWithinQuota FreshWorld secondSessionState := by
    refine ⟨smallDeployment, ⟨_, _, rfl⟩, .of_run ?_ secondSessionState_run⟩
    have hquiet : ∀ a ∈ secondSessionRun, (∀ ρ, QuotaFixed ρ a) ∧
        ∀ ρ s r, revives ρ a s r = false := by
      simp [secondSessionRun, openedRun, openRun, relayRun, QuotaFixed, revives]
    exact fun a ha ρ ↦ .of_not_revives ((hquiet a ha).1 ρ) ((hquiet a ha).2 ρ)
  exact active_sessions_within_quota hreach 1 1

end Discode
