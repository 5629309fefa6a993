import Discode.HandlerSteps

/-!
# Every reachable state keeps the ledger

The acceptance of an input, the expiry of results, and the Owicki–Gries proof of the whole
system with the ledger as its invariant.
-/

set_option autoImplicit false

namespace Discode

/-! ## Acceptance -/

/-- What `run_input_saga` checked when it accepts. -/
theorem runInputSaga_ok {settings : Settings} {key : Key} {sid : SessionId} {guildId : GuildId}
    {text : PyStr} {db db' : Database} (h : runInputSaga settings key sid guildId text db = .ok db') :
    ∃ row threadId hostId, db.session? sid = some row ∧ row.status.isLive = true ∧
      row.guildId = guildId ∧ row.hostId = some hostId ∧
      db.acceptInput key sid row threadId hostId text = some db' := by
  unfold runInputSaga at h
  iterate 4
    split at h
    · cases h
  split at h
  · cases h
  · rename_i row hrow
    split at h
    · cases h
    · rename_i hguild
      split at h
      · cases h
      · rename_i hlive
        rw [Bool.not_eq_true, Bool.not_eq_false'] at hlive
        split at h
        · rename_i threadId hostId hthread hhost
          split at h
          · cases h
          · split at h
            · cases h
            · rename_i db₁ hdb
              cases h
              exact ⟨row, threadId, hostId, hrow, hlive, not_not.mp hguild, hhost, hdb⟩
        · cases h

/-- The job that accompanies an accepted turn. -/
def acceptedJob (key : Key) (sid : SessionId) (row : SessionRow) (threadId : ThreadId)
    (hostId : HostId) (text : PyStr) : InputJobPayload where
  sessionId := sid
  guildId := row.guildId
  threadId := threadId
  hostId := hostId
  text := text
  idempotencyKey := key
  lifecycleVersion := some row.lifecycleVersion

def acceptedTurn (db : Database) (sid : SessionId) (row : SessionRow) : InputTurn where
  sequence := db.nextSequence
  sessionId := sid
  lifecycleVersion := row.lifecycleVersion
  status := .queued
  resultText := none
  resumeToken := none
  updatedAt := db.now

/-- The rows an acceptance leaves behind. -/
structure Accepted (key : Key) (sid : SessionId) (row : SessionRow) (job : InputJobPayload)
    (db db' : Database) : Prop where
  unused : db.turn? key = none
  turn : ∀ k, db'.turn? k = if k = key then some (acceptedTurn db sid row) else db.turn? k
  next : db'.nextSequence = db.nextSequence + 1
  session : ∀ sid', db'.session? sid' = if sid' = sid then (db.session? sid').map fun r ↦
    { r with lastActivityAt := db.now, status := .running } else db.session? sid'
  outbox : ∀ id, db'.outbox.get? id = if id = db.outbox.next then
    some (OutboxRow.write db.now .bot (.inputJobs job.hostId) (.sendInput job)) else
      db.outbox.get? id
  outboxNext : db'.outbox.next = db.outbox.next + 1

theorem acceptInput_eq_some {db db' : Database} {key : Key} {sid : SessionId} {row : SessionRow}
    {threadId : ThreadId} {hostId : HostId} {text : PyStr}
    (h : db.acceptInput key sid row threadId hostId text = some db') :
    Accepted key sid row (acceptedJob key sid row threadId hostId text) db db' := by
  obtain ⟨db₁, hdb₁, rfl⟩ := Option.map_eq_some_iff.mp h
  obtain ⟨turns, hturns, rfl⟩ := Option.map_eq_some_iff.mp hdb₁
  have hnone : db.turn? key = none := (KeyedTable.insert?_eq_some hturns).1
  exact ⟨hnone, KeyedTable.get?_insert? hturns, rfl,
    fun sid' ↦ Database.session?_updateSession _ _ _ sid',
    fun id ↦ SerialTable.get?_insert _ _ id, rfl⟩

namespace Accepted

variable {key : Key} {sid : SessionId} {row : SessionRow} {job : InputJobPayload} {w : World}
  {db' : Database}

theorem core (h : Accepted key sid row job w.db db') (hrow : w.db.session? sid = some row)
    (hlive : row.status.isLive = true) (sid' : SessionId) :
    CoreStep (· = .touch) (w.db.core? sid') (db'.core? sid') := by
  rw [Database.core?, Database.core?, h.session sid']
  split
  · rename_i hsid
    rw [hsid, hrow]
    refine .move .touch _ rfl ?_
    simpa [Writer.sources, Status.isLive, SessionRow.core] using hlive
  · exact .same _

theorem turn_of_some (h : Accepted key sid row job w.db db') {k : Key} {t : InputTurn}
    (ht : w.db.turn? k = some t) : db'.turn? k = some t := by
  have hne : k ≠ key := by
    rintro rfl
    rw [h.unused] at ht
    cases ht
  rw [h.turn, if_neg hne, ht]

theorem advance (h : Accepted key sid row job w.db db') (hrow : w.db.session? sid = some row)
    (hlive : row.status.isLive = true) : Advance w (w.setDb db') := by
  refine ⟨fun sid' ↦ (h.core hrow hlive sid').mono fun _ _ ↦ trivial,
    fun k t ht ↦ ⟨t, h.turn_of_some ht, .refl t⟩, fun k t ht hnone ↦ ?_, ?_⟩
  · rw [World.db_setDb, h.turn] at ht
    split at ht
    · cases ht
      exact le_rfl
    · rw [hnone] at ht
      cases ht
  · exact h.next ▸ Nat.le_succ _

theorem rely (h : Accepted key sid row job w.db db') (hrow : w.db.session? sid = some row)
    (hlive : row.status.isLive = true) (sid' : SessionId) : Rely sid' w (w.setDb db') := by
  exact ⟨h.advance hrow hlive, fun k t ht _ ↦ ⟨t, h.turn_of_some ht, .refl t⟩, fun _ _ _ _ ↦ rfl⟩

theorem job_ok (h : Accepted key sid row job w.db db') (hrow : w.db.session? sid = some row)
    (hhost : row.hostId = some job.hostId) (hsid : job.sessionId = sid)
    (hkey : job.idempotencyKey = key) (hguild : job.guildId = row.guildId)
    (hversion : job.lifecycleVersion = some row.lifecycleVersion) :
    AcceptedJob db' job row.lifecycleVersion := by
  refine ⟨hversion, ⟨acceptedTurn w.db sid row, ?_, hsid.symm, rfl⟩, ?_⟩
  · rw [hkey, h.turn, if_pos rfl]
  · refine ⟨{ row.core with status := .running }, ?_, hguild.symm, hhost, by simp⟩
    rw [hsid, Database.core?, h.session, if_pos rfl, hrow]
    rfl

theorem turnInv (h : Accepted key sid row job w.db db') (hinv : TurnInv w)
    (hrow : w.db.session? sid = some row) (hlive : row.status.isLive = true)
    (hjob : AcceptedJob db' job row.lifecycleVersion) : TurnInv (w.setDb db') := by
  refine hinv.accept (t := acceptedTurn w.db sid row) (h.advance hrow hlive) h.unused h.turn rfl
    rfl h.next ⟨{ row.core with status := .running }, ?_, rfl, rfl⟩ rfl fun p hp ↦ ?_
  · rw [World.db_setDb, Database.core?, acceptedTurn, h.session, if_pos rfl, hrow]
    rfl
  · rcases hp with ⟨id, r, hget, he⟩ | ⟨k, id, hmem⟩
    · rw [World.db_setDb, h.outbox] at hget
      split at hget
      · cases hget
        cases he
        exact .inr ⟨_, hjob⟩
      · exact .inl (.inl ⟨id, r, hget, he⟩)
    · exact .inl (.inr ⟨k, id, hmem⟩)

end Accepted

/-- What the input saga leaves behind, and that it is the next state of the ledger. -/
theorem inputSaga_accepted {w w' : World} {key : Key} {sid : SessionId} {guildId : GuildId}
    {text : PyStr} (h : envStep w (.input key sid guildId text) = some w') :
    ∃ row job db', w' = w.setDb db' ∧ w.db.session? sid = some row ∧ row.status.isLive = true ∧
      Accepted key sid row job w.db db' ∧ AcceptedJob db' job row.lifecycleVersion ∧
      job.idempotencyKey = key ∧ job.sessionId = sid := by
  obtain ⟨db', hdb, rfl⟩ := commit_eq_some h
  cases hr : runInputSaga w.settings key sid guildId text w.db with
  | error e => rw [hr] at hdb; cases hdb
  | ok db₁ =>
      rw [hr] at hdb
      cases hdb
      obtain ⟨row, threadId, hostId, hrow, hlive, -, hhost, haccept⟩ := runInputSaga_ok hr
      have hacc := acceptInput_eq_some haccept
      exact ⟨row, _, db', rfl, hrow, hlive, hacc,
        hacc.job_ok hrow hhost rfl rfl rfl rfl, rfl, rfl⟩

theorem envStep_rely {w w' : World} {e : EnvAction} (h : envStep w e = some w')
    (sid : SessionId) : Rely sid w w' := by
  by_cases hin : ∀ key sid guildId text, e ≠ .input key sid guildId text
  · exact (envStep_quiet h hin).rely sid
  · simp only [not_forall, not_not] at hin
    obtain ⟨key, s, guildId, text, rfl⟩ := hin
    obtain ⟨row, job, db', rfl, hrow, hlive, hacc, -, -, -⟩ := inputSaga_accepted h
    exact hacc.rely hrow hlive sid

theorem envStep_advance {w w' : World} {e : EnvAction} (h : envStep w e = some w') :
    Advance w w' :=
  (envStep_rely h 0).toAdvance

/-! ## Expiry -/

/-- Terminal turns of the snapshot are terminal now. -/
def Sweep.Ok (p : Sweep) (db : Database) : Prop :=
  ∀ key t, p.snapshot.turn? key = some t → ∃ t', db.turn? key = some t' ∧ t.Advances t'

theorem InputTurn.Advances.trans {t t' t'' : InputTurn} (h : t.Advances t')
    (h' : t'.Advances t'') : t.Advances t'' := by
  refine ⟨h.toSameTurn.trans h'.toSameTurn, fun ht ↦ ?_, fun hs ↦ h'.settled (h.settled hs)⟩
  have hstatus := h.terminal ht
  rw [h'.terminal (hstatus ▸ ht), hstatus]

theorem sweepTurnResults_turn? (settings : Settings) (batch : List Key) (snapshot db : Database)
    (key : Key) : (sweepTurnResults settings batch snapshot db).turn? key =
      (db.turn? key).map fun turn ↦
        if batch.contains key && (snapshot.turn? key).any (resultExpired settings snapshot) then
          { turn with resultText := none, resumeToken := none } else turn :=
  KeyedTable.get?_mapRows _ _ _

theorem resultExpired_terminal {settings : Settings} {snapshot : Database} {t : InputTurn}
    (h : resultExpired settings snapshot t = true) : t.status.isTerminal = true := by
  unfold resultExpired at h
  split at h
  · cases h
  · rcases (of_decide_eq_true h).1 with hs | hs <;> rw [hs] <;> rfl

theorem sweepTurnResults_expires {p : Sweep} {db : Database} (h : p.Ok db) {batch : List Key}
    {key : Key} {t : InputTurn} (ht : db.turn? key = some t) :
    ∃ t', (sweepTurnResults p.settings batch p.snapshot db).turn? key = some t' ∧
      t.Expires t' := by
  rw [sweepTurnResults_turn?, ht, Option.map_some]
  refine ⟨_, rfl, ?_⟩
  split
  · rename_i hdue
    have hdue' := (Bool.and_eq_true_iff.mp hdue).2
    cases ht₀ : p.snapshot.turn? key with
    | none =>
        rw [ht₀] at hdue'
        cases hdue'
    | some t₀ =>
        rw [ht₀, Option.any_some] at hdue'
        obtain ⟨t₁, ht₁, hadv⟩ := h key t₀ ht₀
        cases ht.symm.trans ht₁
        have hterm := resultExpired_terminal hdue'
        exact ⟨⟨rfl, rfl, rfl⟩, rfl, .inr (hadv.terminal hterm ▸ hterm)⟩
  · exact .refl t

theorem Sweep.turnResults_advance {w : World} {p : Sweep} (h : p.Ok w.db) {batch : List Key}
    (hk : p.kind = .turnResults batch) : Advance w (p.step w) := by
  unfold Sweep.step
  rw [hk]
  refine ⟨fun _ ↦ .same _, fun key t ht ↦ ?_, fun key t ht hnone ↦ ?_, le_rfl⟩
  · obtain ⟨t', ht', he⟩ := sweepTurnResults_expires h ht
    exact ⟨t', ht', he.advances⟩
  · rw [World.db_setDb, runSweep, sweepTurnResults_turn?, hnone] at ht
    cases ht

theorem Sweep.turnResults_absent {w : World} {p : Sweep} {batch : List Key}
    (hk : p.kind = .turnResults batch) (key : Key) (h : w.db.turn? key = none) :
    (p.step w).db.turn? key = none := by
  unfold Sweep.step
  rw [hk, World.db_setDb, runSweep, sweepTurnResults_turn?, h, Option.map_none]

theorem Sweep.turnResults_rely {w : World} {p : Sweep} (h : p.Ok w.db) {batch : List Key}
    (hk : p.kind = .turnResults batch) (sid : SessionId) : Rely sid w (p.step w) := by
  refine ⟨Sweep.turnResults_advance h hk, fun key t ht _ ↦ ?_, fun _ _ _ _ ↦ rfl⟩
  unfold Sweep.step
  rw [hk]
  exact sweepTurnResults_expires h ht

theorem Sweep.turnResults_turnInv {w : World} {p : Sweep} (h : p.Ok w.db) {batch : List Key}
    (hk : p.kind = .turnResults batch) (hinv : TurnInv w) : TurnInv (p.step w) := by
  have hadv := Sweep.turnResults_advance h hk
  have habsent := Sweep.turnResults_absent (w := w) hk
  unfold Sweep.step at hadv habsent ⊢
  rw [hk] at hadv habsent ⊢
  exact hinv.expire hadv habsent (fun key t ht ↦ sweepTurnResults_expires h ht) rfl
    rfl fun job hjob ↦ hjob

/-! ## The assertions of all processes -/

def Process.Ok (pid : ℕ) (p : Process) (w : World) : Prop :=
  match p with
  | .input p => p.Ok pid w
  | .relay p => p.Ok w.db
  | .sweep p => p.Ok w.db
  | _ => True

/-- A handler between taking the advisory lock of `sid` and giving it back. -/
def Process.Holds (sid : SessionId) : Process → Prop
  | .input p => p.session = sid ∧ p.stage.isLocked = true
  | _ => False

theorem Process.Ok.lock {pid : ℕ} {p : Process} {w : World} {sid : SessionId} (h : p.Ok pid w)
    (hsid : p.Holds sid) : w.locks sid = some pid := by
  cases p with
  | input p =>
      obtain ⟨rfl, hl⟩ := hsid
      obtain ⟨v, hok⟩ := h
      exact hok.lock hl
  | _ => cases hsid

/-- Two holders of one advisory lock are one process. -/
theorem Process.Ok.holder_unique {pid pid' : ℕ} {p p' : Process} {w : World} {sid : SessionId}
    (h : p.Ok pid w) (hsid : p.Holds sid) (h' : p'.Ok pid' w) (hsid' : p'.Holds sid) :
    pid = pid' :=
  Option.some.inj ((h.lock hsid).symm.trans (h'.lock hsid'))

theorem Process.Ok.stable {pid : ℕ} {p : Process} {w w' : World} (h : p.Ok pid w)
    (hinv : TurnInv w) (hadv : Advance w w') (hrely : ∀ sid, p.Holds sid → Rely sid w w')
    (hlocks : ∀ sid, w.locks sid = some pid → w'.locks sid = some pid) : p.Ok pid w' := by
  cases p with
  | input p =>
      obtain ⟨v, hok⟩ := h
      cases hp : p.stage.isLocked with
      | false => exact ⟨v, hok.advance hp hadv⟩
      | true => exact ⟨v, hok.rely hinv (hrely p.session ⟨rfl, hp⟩) (hlocks p.session)⟩
  | relay p =>
      intro id row job hmem he
      obtain ⟨v, hv⟩ := h id row job hmem he
      exact ⟨v, hv.advance hadv⟩
  | sweep p =>
      intro key t ht
      obtain ⟨t', ht', hadv'⟩ := h key t ht
      obtain ⟨t'', ht'', hadv''⟩ := hadv.turn key t' ht'
      exact ⟨t'', ht'', hadv'.trans hadv''⟩
  | _ => trivial

theorem Process.Ok.quiet {W : Writer → Prop} {pid : ℕ} {p : Process} {w w' : World}
    (h : p.Ok pid w) (hinv : TurnInv w) (hq : Quiet W w w')
    (hlocks : ∀ sid, w.locks sid = some pid → w'.locks sid = some pid) : p.Ok pid w' :=
  h.stable hinv hq.advance (fun sid _ ↦ hq.rely sid) hlocks

theorem envStep_locks {w w' : World} {e : EnvAction} (h : envStep w e = some w') :
    w'.locks = w.locks := by
  cases e with
  | restart sid guildId =>
      simp only [envStep] at h
      split at h <;> cases h
      rfl
  | stopJob hostId entry =>
      simp only [envStep] at h
      split at h <;> cases h
      rfl
  | retire stream entry => cases stream <;> cases h <;> rfl
  | input | stop | archive | resume =>
      obtain ⟨db, -, rfl⟩ := commit_eq_some h
      rfl
  | _ => cases h; rfl

/-- A process gives back only its own locks. -/
def KeepsLocks (pid : ℕ) (w w' : World) : Prop :=
  ∀ sid other, other ≠ pid → w.locks sid = some other → w'.locks sid = some other

theorem KeepsLocks.of_eq {pid : ℕ} {w w' : World} (h : w'.locks = w.locks) :
    KeepsLocks pid w w' :=
  fun _ _ _ hl ↦ h ▸ hl

theorem KeepsLocks.release {pid : ℕ} {w w' : World} (h : w'.locks = w.locks) :
    KeepsLocks pid w (w'.release pid) :=
  fun sid other hne hl ↦ by
    rw [World.locks_release, h, hl, if_neg fun he ↦ hne (Option.some.inj he)]

theorem CreateSaga.step_locks {pid : ℕ} {w w' : World} {p : CreateSaga} {q : Option CreateSaga}
    {a : CreateSagaAction} (h : p.step pid w a = some (w', q)) : KeepsLocks pid w w' := by
  cases a with
  | acquire =>
      simp only [CreateSaga.step] at h
      split at h
      · split at h
        · cases h
          exact .of_eq rfl
        · cases h
      · cases h
  | count =>
      simp only [CreateSaga.step] at h
      split at h
      · split at h <;> cases h
        · exact .release rfl
        · exact .of_eq rfl
      · cases h
  | beginSelect =>
      simp only [CreateSaga.step] at h
      split at h <;> cases h
      exact .of_eq rfl
  | commit predecessor =>
      simp only [CreateSaga.step] at h
      split at h
      · obtain ⟨db, -, he⟩ := Option.map_eq_some_iff.mp h
        cases predecessor <;> cases he
        · exact .release rfl
        · intro sid other hne hl
          exact InputHandler.locks_release_of_ne (w := w) hne hl
      · cases h

theorem World.resumed_locks (w : World) (p : LifecyclePayload) (row : SessionRow)
    (token : Option Token) : (w.resumed p row token).locks = w.locks := by
  unfold World.resumed
  split <;> rfl

theorem ResumeJob.step_locks {pid : ℕ} {w w' : World} {p : ResumeJob} {q : Option ResumeJob}
    {a : ResumeJobAction} (h : p.step pid w a = some (w', q)) : KeepsLocks pid w w' := by
  cases a with
  | check =>
      simp only [ResumeJob.step] at h
      split at h
      · split at h
        · cases h
          exact .of_eq rfl
        · split at h <;> cases h <;> exact .of_eq rfl
      · cases h
  | lock collision =>
      simp only [ResumeJob.step] at h
      split at h
      · split at h
        · cases h
          exact .of_eq rfl
        · rename_i hfree
          cases h
          intro sid other _ hl
          rw [World.locks_lock]
          split
          · rename_i hsid
            rw [hsid] at hl
            simp [hl] at hfree
          · exact hl
      · cases h
  | read =>
      simp only [ResumeJob.step] at h
      split at h
      · split at h
        · cases h
          exact .release rfl
        · split at h <;> cases h
          · exact .release rfl
          · exact .of_eq rfl
      · cases h
  | revalidate denied =>
      simp only [ResumeJob.step] at h
      split at h <;> cases h
      exact .of_eq rfl
  | refuse =>
      simp only [ResumeJob.step] at h
      split at h <;> cases h
      exact .release rfl
  | mint minted =>
      simp only [ResumeJob.step] at h
      split at h <;> cases h
      exact .of_eq rfl
  | commit =>
      simp only [ResumeJob.step] at h
      split at h <;> cases h
      exact .release (w.resumed_locks _ _ _)
  | commitFails applied =>
      simp only [ResumeJob.step] at h
      split at h <;> cases h
      split
      · exact .of_eq (w.resumed_locks _ _ _)
      · exact .of_eq rfl
  | orphan =>
      simp only [ResumeJob.step] at h
      split at h <;> cases h
      exact .release rfl

theorem CreateJob.step_locks {w w' : World} {p : CreateJob} {q : Option CreateJob}
    {a : CreateJobAction} (h : p.step w a = some (w', q)) : w'.locks = w.locks := by
  cases a with
  | lockRow denied =>
      simp only [CreateJob.step] at h
      split at h
      · split at h
        · cases h
          rfl
        · split at h <;> cases h <;> rfl
      · cases h
  | getAdapter unknown minted =>
      simp only [CreateJob.step] at h
      split at h <;> cases h
      rfl
  | release => rw [(CreateJob.release_cases h).1]
  | fail =>
      simp only [CreateJob.step] at h
      split at h <;> cases h
      rfl
  | commit =>
      simp only [CreateJob.step] at h
      split at h
      · split at h <;> cases h <;> rfl
      · cases h
  | register =>
      simp only [CreateJob.step] at h
      split at h <;> cases h
      rfl

/-! The background loops lock no session and report nothing. -/

theorem DriftSweep.step_silent {w w' : World} {p : DriftSweep} {q : Option DriftSweep}
    {a : DriftAction} (h : p.step w a = some (w', q)) : w'.locks = w.locks ∧ w'.log = w.log := by
  cases a with
  | readFlagged =>
      simp only [DriftSweep.step] at h
      split at h <;> cases h
      exact ⟨rfl, rfl⟩
  | next =>
      simp only [DriftSweep.step] at h
      split at h
      · cases h
        exact ⟨rfl, rfl⟩
      · split at h
        · cases h
          exact ⟨rfl, rfl⟩
        · split at h <;> cases h <;> exact ⟨rfl, rfl⟩
      · cases h
  | commit =>
      simp only [DriftSweep.step] at h
      split at h <;> cases h <;> exact ⟨rfl, rfl⟩
  | skip =>
      simp only [DriftSweep.step] at h
      split at h <;> cases h <;> exact ⟨rfl, rfl⟩

theorem RelayBatch.step_silent {w w' : World} {p : RelayBatch} {q : Option RelayBatch}
    {a : RelayAction} (h : p.step w a = some (w', q)) : w'.locks = w.locks ∧ w'.log = w.log := by
  cases a with
  | redisUnavailable => cases h; exact ⟨rfl, rfl⟩
  | _ =>
      simp only [RelayBatch.step] at h
      split at h <;> cases h
      exact ⟨rfl, rfl⟩

theorem TrimCall.step_silent {w w' : World} {p : TrimCall} {q : Option TrimCall}
    {a : TrimAction} (h : p.step w a = some (w', q)) : w'.locks = w.locks ∧ w'.log = w.log := by
  cases a with
  | trim =>
      simp only [TrimCall.step] at h
      split at h <;> cases h
      split <;> exact ⟨rfl, rfl⟩
  | _ =>
      simp only [TrimCall.step] at h
      split at h <;> cases h
      exact ⟨rfl, rfl⟩

/-- The rows a relay still has to publish. -/
theorem RelayBatch.step_ok {w w' : World} {p q : RelayBatch} {a : RelayAction} (hp : p.Ok w.db)
    (h : p.step w a = some (w', some q)) : q.Ok w.db := by
  cases a with
  | redisUnavailable =>
      cases h
      exact fun _ _ _ hmem ↦ nomatch hmem
  | commit =>
      simp only [RelayBatch.step] at h
      split at h <;> cases h
  | _ =>
      simp only [RelayBatch.step] at h
      split at h
      · cases h
      · rename_i id row rest hrows
        cases h
        exact fun id' row' job hmem he ↦ hp id' row' job (hrows ▸ List.mem_cons_of_mem _ hmem) he

/-! ## The proof of the system -/

/-- What a step of process `pid` does to the invariant and to the other processes. -/
structure StepOk (pid : ℕ) (p : Process) (w w' : World) (q : Option Process) : Prop where
  inv : TurnInv w'
  next : ∀ r, q = some r → r.Ok pid w'
  advance : Advance w w'
  absent : ∀ key, w.db.turn? key = none → w'.db.turn? key = none
  rely : ∀ sid, ¬ p.Holds sid → Rely sid w w'
  locks : KeepsLocks pid w w'

theorem StepOk.of_quiet {W : Writer → Prop} {pid : ℕ} {p : Process} {w w' : World}
    {q : Option Process} (hinv : TurnInv w) (hq : Quiet W w w') (hlocks : KeepsLocks pid w w')
    (hnext : ∀ r, q = some r → r.Ok pid w') : StepOk pid p w w' q :=
  ⟨hinv.quiet hq, hnext, hq.advance, fun key hnone ↦ (hq.turn? key).trans hnone,
    fun sid _ ↦ hq.rely sid, hlocks⟩

theorem execStep_ok {pid : ℕ} {w w' : World} {p : Process} {a : ExecAction} {q : Option Process}
    (hinv : TurnInv w) (hp : p.Ok pid w) (h : execStep pid w p a = some (w', q)) :
    StepOk pid p w w' q := by
  cases execStep_cases h with
  | crash p =>
      exact .of_quiet hinv (release_quiet (W := Ordinary) w pid) (.release rfl) fun r hr ↦ nomatch hr
  | createSaga hstep =>
      refine .of_quiet hinv (CreateSaga.step_tx hstep).quiet (CreateSaga.step_locks hstep)
        fun r hr ↦ ?_
      obtain ⟨r', -, rfl⟩ := Option.map_eq_some_iff.mp hr
      trivial
  | createJob hstep =>
      refine .of_quiet hinv (CreateJob.step_tx hstep).quiet (.of_eq (CreateJob.step_locks hstep))
        fun r hr ↦ ?_
      obtain ⟨r', -, rfl⟩ := Option.map_eq_some_iff.mp hr
      trivial
  | resumeJob hstep =>
      refine .of_quiet hinv (ResumeJob.step_tx hstep).quiet (ResumeJob.step_locks hstep)
        fun r hr ↦ ?_
      obtain ⟨r', -, rfl⟩ := Option.map_eq_some_iff.mp hr
      trivial
  | @input p a _ q hstep =>
      obtain ⟨v, hok⟩ := hp
      have hs := InputHandler.step_ok hinv hok hstep
      refine ⟨hs.inv, fun r hr ↦ ?_, hs.advance, hs.absent, fun sid hsid ↦ hs.rely sid ?_,
        hs.locks⟩
      · obtain ⟨r', hr', rfl⟩ := Option.map_eq_some_iff.mp hr
        exact ⟨v, hs.next r' hr'⟩
      · cases hl : p.stage.isLocked with
        | false => exact .inr rfl
        | true => exact .inl fun he ↦ hsid ⟨he.symm, hl⟩
  | @recovery rows verdict _ q hstep =>
      refine .of_quiet hinv (Recovery.step_tx hstep).quiet (.of_eq ?_) fun r hr ↦ ?_
      · cases rows <;> cases hstep <;> rfl
      · obtain ⟨r', -, rfl⟩ := Option.map_eq_some_iff.mp hr
        trivial
  | release hrelease =>
      refine .of_quiet hinv (Quiet.refl (W := Ordinary) w) (.of_eq rfl) fun r hr ↦ ?_
      cases hr
      rw [(Sweep.release_eq_some hrelease).2]
      exact hp
  | sweep p =>
      cases hk : p.kind with
      | turnResults batch =>
          exact ⟨Sweep.turnResults_turnInv hp hk hinv, (fun r hr ↦ nomatch hr),
            Sweep.turnResults_advance hp hk, Sweep.turnResults_absent hk,
            fun sid _ ↦ Sweep.turnResults_rely hp hk sid, .of_eq rfl⟩
      | _ =>
          exact .of_quiet hinv (p.step_quiet w fun batch ↦ by simp [hk]) (.of_eq rfl)
            fun r hr ↦ nomatch hr
  | drift hstep =>
      refine .of_quiet hinv (DriftSweep.step_tx hstep).quiet
        (.of_eq (DriftSweep.step_silent hstep).1) fun r hr ↦ ?_
      obtain ⟨r', -, rfl⟩ := Option.map_eq_some_iff.mp hr
      trivial
  | relay hstep =>
      have hquiet := RelayBatch.step_quiet hp hstep
      refine .of_quiet hinv hquiet (.of_eq (RelayBatch.step_silent hstep).1) fun r hr ↦ ?_
      obtain ⟨r', rfl, rfl⟩ := Option.map_eq_some_iff.mp hr
      intro id row job hmem he
      obtain ⟨v, hv⟩ := RelayBatch.step_ok hp hstep id row job hmem he
      exact ⟨v, hv.advance hquiet.advance⟩
  | trim hstep =>
      refine .of_quiet hinv (TrimCall.step_quiet hstep) (.of_eq (TrimCall.step_silent hstep).1)
        fun r hr ↦ ?_
      obtain ⟨r', -, rfl⟩ := Option.map_eq_some_iff.mp hr
      trivial
  | reply hstep =>
      have hquiet := (replyStep_tx hstep).quiet
      obtain ⟨⟨s, next⟩, -, he⟩ := Option.map_eq_some_iff.mp hstep
      cases he
      refine .of_quiet hinv hquiet (.of_eq rfl) fun r hr ↦ ?_
      cases hr
      trivial

theorem mem_of_pendingJob? {w : World} {stream : StreamKey} {entry : ℕ} {e : Envelope}
    (h : w.pendingJob? stream entry = some e) : (entry, e) ∈ (w.streams stream).entries := by
  unfold World.pendingJob? at h
  split at h
  · exact KeyedTable.mem_of_lookup_eq_some h
  · cases h

/-- A new process starts from what the database and the streams hold. -/
theorem spawnStep_ok {pid : ℕ} {w w' : World} {n : SpawnAction} {p : Process} (hinv : TurnInv w)
    (h : spawnStep pid w n = some (w', p)) : p.Ok pid w := by
  cases (spawnStep_cases h).2 with
  | @inputJob hostId entry job hjob =>
      obtain ⟨v, hv⟩ := hinv.jobs job (.inr ⟨_, entry, mem_of_pendingJob? hjob⟩)
      refine ⟨v, hv, fun hl ↦ ?_, trivial⟩
      cases hl
  | sweep kind => exact fun key t ht ↦ ⟨t, ht, .refl t⟩
  | relay producer =>
      intro id row job hmem he
      have hrow := List.mem_of_mem_take hmem
      exact hinv.jobs job (.inl ⟨id, row, (KeyedTable.mem_select_iff.mp hrow).1, he⟩)
  | _ => trivial

theorem system_proof : system.Proof (fun _ _ ↦ True) TurnInv Process.Ok where
  env σ e s h _ hs := by
    have hlocks := envStep_locks hs
    by_cases he : ∀ key sid guildId text, e ≠ .input key sid guildId text
    · have hquiet := envStep_quiet hs he
      exact ⟨h.inv.quiet hquiet, fun pid p hp ↦
        hp.quiet h.inv hquiet fun sid hl ↦ hlocks ▸ hl⟩
    · simp only [not_forall, not_not] at he
      obtain ⟨key, sid, guildId, text, rfl⟩ := he
      obtain ⟨row, job, db', rfl, hrow, hlive, hacc, hjob, -, -⟩ := inputSaga_accepted hs
      exact ⟨hacc.turnInv h.inv hrow hlive hjob, fun pid p hp ↦
        hp.stable h.inv (hacc.advance hrow hlive) (fun sid' _ ↦ hacc.rely hrow hlive sid')
          fun sid hl ↦ hl⟩
  spawn σ n s p h _ hs := by
    obtain rfl := system_spawn hs
    exact ⟨h.inv, spawnStep_ok h.inv hs, fun _ _ _ hr ↦ hr⟩
  exec σ pid p a s p' h _ hp hs := by
    have hok := h.assert pid p hp
    have hstep := execStep_ok h.inv hok hs
    refine ⟨hstep.inv, hstep.next, fun q r hq hr ↦ ?_⟩
    refine hr.stable h.inv hstep.advance (fun sid hsid ↦ hstep.rely sid fun hown ↦ hq ?_)
      fun sid hl ↦ hstep.locks sid q hq hl
    exact Process.Ok.holder_unique hr hsid hok hown

theorem FreshWorld.turnInv {w : World} (h : FreshWorld w) : TurnInv w := by
  obtain ⟨settings, redactor, rfl⟩ := h
  refine ⟨?_, ?_, ?_, ?_, ?_, fun _ _ ↦ rfl, ?_⟩
  · exact fun key t ht ↦ nomatch ht
  · exact fun key t ht ↦ nomatch ht
  · exact fun key t key' t' ht ↦ nomatch ht
  · exact fun key t key' t' ht ↦ nomatch ht
  · exact fun key t ht ↦ nomatch ht
  · rintro p (⟨id, row, hget, -⟩ | ⟨key, id, hmem⟩)
    · cases hget
    · cases hmem

/-- In every reachable state the ledger is in order and every process is where it should be. -/
theorem system_annotated {σ : SystemState} (h : SystemReachable σ) :
    ProcessPool.Machine.Annotated TurnInv Process.Ok σ :=
  system_proof.annotated (fun _ hw ↦ hw.turnInv) h

end Discode
