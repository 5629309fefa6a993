import Discode.LedgerProof

/-!
# What a run adds

Every step extends the history at its newest end, and every event was emitted by a process
at the program point that stands for it.  Along a run, sessions and turns only develop.
-/

set_option autoImplicit false

namespace Discode

/-! ## Who emits an event -/

/-- Process `pid` can emit the event in the state `w`. -/
def Event.EmittedBy (pid : ℕ) (p : Process) (w : World) : Event → Prop
  | tookOver heir predecessor token => ∃ s snapshot db, p = .createSaga s ∧
      s.stage = .selecting snapshot ∧ heir = s.request.sessionId ∧
      createSession s.request snapshot (some predecessor) w.db = some db ∧
      token = s.request.resumeTokenToUse w.db (some predecessor)
  | becameRunning sid version token =>
      (∃ j minted row, p = .createJob j ∧ j.stage = .ready minted ∧ j.payload.sessionId = sid ∧
        w.db.session? sid = some row ∧ row.status = .creating ∧ row.lifecycleVersion = version ∧
        token = (minted <|> row.toolResumeToken)) ∨
      ∃ j row r, p = .resumeJob j ∧ j.stage = .commit row token ∧ j.payload.sessionId = sid ∧
        w.db.session? sid = some r ∧ r.status = .resuming ∧ r.lifecycleVersion = version ∧
        row.lifecycleVersion = version
  | restarted _ _ => False
  | admitted q sid version key => q = pid ∧ ∃ h row db, p = .input h ∧ h.stage = .persistIntent row ∧
      h.session = sid ∧ h.key = key ∧ row.lifecycleVersion = version ∧
      admitTurn h.payload version w.db = some db
  | started q sid version key token => q = pid ∧ ∃ h row, p = .input h ∧
      h.stage = .admitted row ∧ h.session = sid ∧ h.key = key ∧
      row.lifecycleVersion = version ∧ row.toolResumeToken = token
  | finished q sid version key _ => q = pid ∧ ∃ h row, p = .input h ∧ h.stage = .executing row ∧
      h.session = sid ∧ h.key = key ∧ row.lifecycleVersion = version
  | recorded q sid key text => q = pid ∧ ∃ h version token, p = .input h ∧
      h.stage = .executed version text token ∧ h.session = sid ∧ h.key = key
  | replied q sid version replyKey text => q = pid ∧ ∃ h stage, p = .input h ∧ h.session = sid ∧
      h.posting = some (version, replyKey, text, stage)
  | chunkChecked q sid version chunk => q = pid ∧ ∃ hostId r, p = .reply hostId r ∧
      r.stage = .check ∧ r.session = sid ∧ r.version = version ∧ r.idx = chunk ∧
      SessionInfo.liveAt (sessionLookup w.db hostId sid) version = true
  | chunkPosted q sid version chunk => q = pid ∧ ∃ hostId r, p = .reply hostId r ∧
      r.stage = .send ∧ r.session = sid ∧ r.version = version ∧ r.idx = chunk

/-- The step leads from `w` to `w'` and adds events of process `pid` to the history. -/
def Emits (pid : ℕ) (p : Process) (w w' : World) : Prop :=
  ∃ new, w'.log = new ++ w.log ∧ new.length ≤ 1 ∧ ∀ e ∈ new, e.EmittedBy pid p w

theorem Emits.nothing {pid : ℕ} {p : Process} {w w' : World} (h : w'.log = w.log) :
    Emits pid p w w' :=
  ⟨[], h, Nat.zero_le 1, fun _ he ↦ nomatch he⟩

theorem Emits.one {pid : ℕ} {p : Process} {w w' : World} {e : Event}
    (h : w'.log = e :: w.log) (he : e.EmittedBy pid p w) : Emits pid p w w' :=
  ⟨[e], h, le_rfl, fun _ he' ↦ List.mem_singleton.mp he' ▸ he⟩

theorem CreateSaga.step_emits {pid : ℕ} {w w' : World} {p : CreateSaga} {q : Option CreateSaga}
    {a : CreateSagaAction} (h : p.step pid w a = some (w', q)) :
    Emits pid (.createSaga p) w w' := by
  cases a with
  | acquire =>
      simp only [CreateSaga.step] at h
      split at h
      · split at h <;> cases h
        exact .nothing rfl
      · cases h
  | count =>
      simp only [CreateSaga.step] at h
      split at h
      · split at h <;> cases h <;> exact .nothing rfl
      · cases h
  | beginSelect =>
      simp only [CreateSaga.step] at h
      split at h <;> cases h
      exact .nothing rfl
  | commit predecessor =>
      simp only [CreateSaga.step] at h
      split at h
      · rename_i snapshot hstage
        obtain ⟨db, hdb, he⟩ := Option.map_eq_some_iff.mp h
        cases predecessor with
        | none =>
            cases he
            exact .nothing rfl
        | some p' =>
            cases he
            exact .one rfl ⟨p, snapshot, db, rfl, hstage, rfl, hdb, rfl⟩
      · cases h

theorem markRunning_eq_some {p : CreateJobPayload} {hostId : HostId} {token : Option Token}
    {db db' : Database} (h : markRunning p hostId token db = some db') :
    ∃ row, db.session? p.sessionId = some row ∧ row.status = .creating := by
  unfold markRunning at h
  split at h
  · cases h
  · rename_i row hrow
    split at h
    · cases h
    · rename_i hs
      exact ⟨row, hrow, not_not.mp hs⟩

theorem CreateJob.step_emits {pid : ℕ} {w w' : World} {p : CreateJob} {q : Option CreateJob}
    {a : CreateJobAction} (h : p.step w a = some (w', q)) : Emits pid (.createJob p) w w' := by
  cases a with
  | lockRow denied =>
      simp only [CreateJob.step] at h
      split at h
      · split at h
        · cases h
          exact .nothing rfl
        · split at h <;> cases h <;> exact .nothing rfl
      · cases h
  | getAdapter unknown minted =>
      simp only [CreateJob.step] at h
      split at h <;> cases h
      exact .nothing rfl
  | release => exact .nothing (by rw [(CreateJob.release_cases h).1])
  | fail =>
      simp only [CreateJob.step] at h
      split at h <;> cases h
      exact .nothing rfl
  | commit =>
      simp only [CreateJob.step] at h
      split at h
      · rename_i token hstage
        split at h
        · rename_i row db hrow hdb
          cases h
          obtain ⟨row', hrow', hs⟩ := markRunning_eq_some hdb
          cases hrow.symm.trans hrow'
          exact .one rfl (.inl ⟨p, token, row, rfl, hstage, rfl, hrow, hs, rfl, rfl⟩)
        · cases h
          exact .nothing rfl
      · cases h
  | register =>
      simp only [CreateJob.step] at h
      split at h <;> cases h
      exact .nothing rfl

theorem World.resumed_emits {pid : ℕ} {w : World} {p : ResumeJob} {row : SessionRow}
    {token : Option Token} (hstage : p.stage = .commit row token) :
    Emits pid (.resumeJob p) w (w.resumed p.payload row token) := by
  unfold World.resumed
  split
  · exact .nothing rfl
  · rename_i db hdb
    obtain ⟨r, hr, -⟩ := Option.map_eq_some_iff.mp hdb
    obtain ⟨hget, hversion, hs⟩ := resumingRow?_eq_some.mp hr
    exact .one rfl (.inr ⟨p, row, r, rfl, hstage, rfl, hget, hs, hversion, rfl⟩)

theorem ResumeJob.step_emits {pid : ℕ} {w w' : World} {p : ResumeJob} {q : Option ResumeJob}
    {a : ResumeJobAction} (h : p.step pid w a = some (w', q)) :
    Emits pid (.resumeJob p) w w' := by
  cases a with
  | check =>
      simp only [ResumeJob.step] at h
      split at h
      · split at h
        · cases h
          exact .nothing rfl
        · split at h <;> cases h <;> exact .nothing rfl
      · cases h
  | lock collision =>
      simp only [ResumeJob.step] at h
      split at h
      · split at h <;> cases h <;> exact .nothing rfl
      · cases h
  | read =>
      simp only [ResumeJob.step] at h
      split at h
      · split at h
        · cases h
          exact .nothing rfl
        · split at h <;> cases h <;> exact .nothing rfl
      · cases h
  | commit =>
      simp only [ResumeJob.step] at h
      split at h <;> cases h
      rename_i hstage
      exact World.resumed_emits hstage
  | commitFails applied =>
      simp only [ResumeJob.step] at h
      split at h <;> cases h
      rename_i hstage
      split
      · exact World.resumed_emits hstage
      · exact .nothing rfl
  | _ =>
      simp only [ResumeJob.step] at h
      split at h <;> cases h
      exact .nothing rfl

theorem InputHandler.step_emits {pid : ℕ} {w w' : World} {p : InputHandler}
    {q : Option InputHandler} {a : InputAction} (h : p.step pid w a = some (w', q)) :
    Emits pid (.input p) w w' := by
  cases step_effect h with
  | persistIntent hstage hdb => exact .one rfl ⟨rfl, p, _, _, rfl, hstage, rfl, rfl, rfl, hdb⟩
  | start hstage => exact .one rfl ⟨rfl, p, _, rfl, hstage, rfl, rfl, rfl, rfl⟩
  | finish hstage reply token => exact .one rfl ⟨rfl, p, _, rfl, hstage, rfl, rfl, rfl⟩
  | record hstage => exact .one rfl ⟨rfl, p, _, _, rfl, hstage, rfl, rfl⟩
  | post hposting => exact .one rfl ⟨rfl, p, _, rfl, rfl, hposting⟩
  | _ => exact .nothing rfl

theorem Sweep.step_log (w : World) (p : Sweep) : (p.step w).log = w.log := rfl

theorem replyStep_emits {pid : ℕ} {w w' : World} {hostId : HostId} {p : ReplyRequest}
    {a : ReplyAction} {q : Option Process} (h : replyStep pid w hostId p a = some (w', q)) :
    Emits pid (.reply hostId p) w w' := by
  obtain ⟨⟨s, next⟩, hstep, he⟩ := Option.map_eq_some_iff.mp h
  cases he
  refine ⟨p.events pid a next, rfl, ?_, fun e he ↦ ?_⟩
  · unfold ReplyRequest.events
    split
    · split <;> simp
    · simp
    · simp
  unfold ReplyRequest.events at he
  split at he
  · rename_i allowed
    simp only [ReplyRequest.step] at hstep
    split at hstep
    · rename_i hstage
      cases hstep
      obtain ⟨hsend, he⟩ := List.mem_ite_nil_right.mp he
      rw [List.mem_singleton.mp he]
      refine ⟨rfl, hostId, p, rfl, hstage, rfl, rfl, rfl, ?_⟩
      cases hlive : SessionInfo.liveAt (sessionLookup w.db hostId p.session) p.version with
      | true => rfl
      | false =>
          rw [hlive] at hsend
          cases hsend
    · cases hstep
  · simp only [ReplyRequest.step] at hstep
    split at hstep
    · rename_i hstage
      rw [List.mem_singleton.mp he]
      exact ⟨rfl, hostId, p, rfl, hstage, rfl, rfl, rfl⟩
    · cases hstep
  · cases he

theorem execStep_emits {pid : ℕ} {w w' : World} {p : Process} {a : ExecAction}
    {q : Option Process} (h : execStep pid w p a = some (w', q)) : Emits pid p w w' := by
  cases execStep_cases h with
  | crash p => exact .nothing rfl
  | createSaga hstep => exact CreateSaga.step_emits hstep
  | createJob hstep => exact CreateJob.step_emits hstep
  | resumeJob hstep => exact ResumeJob.step_emits hstep
  | input hstep => exact InputHandler.step_emits hstep
  | @recovery rows verdict _ q hstep =>
      cases rows <;> cases hstep <;> exact .nothing rfl
  | release | sweep => exact .nothing rfl
  | drift hstep => exact .nothing (DriftSweep.step_silent hstep).2
  | relay hstep => exact .nothing (RelayBatch.step_silent hstep).2
  | trim hstep => exact .nothing (TrimCall.step_silent hstep).2
  | reply hstep => exact replyStep_emits hstep

/-- The environment only reports restarts. -/
theorem envStep_log {w w' : World} {e : EnvAction} (h : envStep w e = some w') :
    w'.log = w.log ∨ ∃ sid guildId row db, e = .restart sid guildId ∧
      w.db.session? sid = some row ∧ runRestartSaga sid guildId w.db = .ok db ∧
      w' = (w.setDb db).emit (.restarted sid (row.lifecycleVersion + 1)) := by
  cases e with
  | restart sid guildId =>
      simp only [envStep] at h
      split at h
      · rename_i db row hdb hrow
        cases h
        cases hr : runRestartSaga sid guildId w.db with
        | error e => rw [hr] at hdb; cases hdb
        | ok db' =>
            rw [hr] at hdb
            cases hdb
            exact .inr ⟨sid, guildId, row, db, rfl, hrow, hr, rfl⟩
      · cases h
  | stopJob hostId entry =>
      simp only [envStep] at h
      split at h <;> cases h
      exact .inl rfl
  | retire stream entry => cases stream <;> cases h <;> exact .inl rfl
  | input | stop | archive | resume =>
      obtain ⟨db, -, rfl⟩ := commit_eq_some h
      exact .inl rfl
  | _ => cases h; exact .inl rfl

/-- Every event of a step was emitted by the process that took it, or reports a restart. -/
theorem step_emits {σ τ : SystemState} {a : SystemAction} (h : system.step σ a = some τ) :
    ∃ new, τ.shared.log = new ++ σ.shared.log ∧ new.length ≤ 1 ∧
      ∀ e ∈ new, (∃ sid version, e = .restarted sid version) ∨
        ∃ pid b p, a = .exec pid b ∧ σ.procs pid = some p ∧ e.EmittedBy pid p σ.shared := by
  rcases step_world h with ⟨e, rfl, he⟩ | ⟨n, rfl, hw⟩ | ⟨pid, b, p, q, rfl, hp, hb⟩
  · rcases envStep_log he with hlog | ⟨sid, guildId, row, db, rfl, -, -, hw⟩
    · exact ⟨[], hlog, Nat.zero_le 1, fun _ he ↦ nomatch he⟩
    · exact ⟨[_], congrArg World.log hw, le_rfl,
        fun e he ↦ .inl ⟨sid, _, List.mem_singleton.mp he⟩⟩
  · exact ⟨[], congrArg World.log hw, Nat.zero_le 1, fun _ he ↦ nomatch he⟩
  · obtain ⟨new, hnew, hone, hemit⟩ := execStep_emits hb
    exact ⟨new, hnew, hone, fun e he ↦ .inr ⟨pid, b, p, rfl, hp, hemit e he⟩⟩

/-! ## Along a run -/

/-- A state that a run has come to from an earlier one. -/
structure Later (w w' : World) : Prop where
  session : ∀ sid c, w.db.core? sid = some c → ∃ c', w'.db.core? sid = some c' ∧
    c.version ≤ c'.version ∧ (∀ v, c.LeftAt v → c'.LeftAt v) ∧
    ∀ v, c.LiveAt v → c'.LiveAt v ∨ c'.LeftAt v
  turn : ∀ key t, w.db.turn? key = some t → ∃ t', w'.db.turn? key = some t' ∧ t.Advances t'
  fresh : ∀ key t', w'.db.turn? key = some t' → w.db.turn? key = none →
    w.db.nextSequence ≤ t'.sequence
  sequence : w.db.nextSequence ≤ w'.db.nextSequence

theorem Advance.later {w w' : World} (h : Advance w w') : Later w w' := by
  refine ⟨fun sid c hc ↦ ?_, h.turn, h.fresh, h.sequence⟩
  have hstep := hc ▸ h.core sid
  obtain ⟨c', hc'⟩ := hstep.exists_of_some
  rw [hc'] at hstep
  exact ⟨c', hc', hstep.version_le, fun v ↦ hstep.leftAt, fun v ↦ hstep.liveAt⟩

theorem Later.refl (w : World) : Later w w :=
  (Quiet.refl (W := Ordinary) w).advance.later

theorem Later.trans {w w' w'' : World} (h : Later w w') (h' : Later w' w'') : Later w w'' := by
  refine ⟨fun sid c hc ↦ ?_, fun key t ht ↦ ?_, fun key t ht hnone ↦ ?_,
    h.sequence.trans h'.sequence⟩
  · obtain ⟨c', hc', hv, hleft, hlive⟩ := h.session sid c hc
    obtain ⟨c'', hc'', hv', hleft', hlive'⟩ := h'.session sid c' hc'
    refine ⟨c'', hc'', hv.trans hv', fun v hd ↦ hleft' v (hleft v hd), fun v hd ↦ ?_⟩
    rcases hlive v hd with hl | hl
    · exact hlive' v hl
    · exact .inr (hleft' v hl)
  · obtain ⟨t', ht', hadv⟩ := h.turn key t ht
    obtain ⟨t'', ht'', hadv'⟩ := h'.turn key t' ht'
    exact ⟨t'', ht'', hadv.trans hadv'⟩
  · cases ht' : w'.db.turn? key with
    | none => exact h.sequence.trans (h'.fresh key t ht ht')
    | some t' =>
        obtain ⟨t'', ht'', hadv⟩ := h'.turn key t' ht'
        cases ht.symm.trans ht''
        rw [hadv.sequence]
        exact h.fresh key t' ht' hnone

theorem step_advance {σ τ : SystemState} (h : SystemReachable σ) {a : SystemAction}
    (hs : system.step σ a = some τ) : Advance σ.shared τ.shared := by
  have hσ := system_annotated h
  rcases step_world hs with ⟨e, rfl, he⟩ | ⟨n, rfl, hw⟩ | ⟨pid, b, p, q, rfl, hp, hb⟩
  · exact envStep_advance he
  · exact hw ▸ (Quiet.refl (W := Ordinary) _).advance
  · exact (execStep_ok hσ.inv (hσ.assert pid p hp) hb).advance

theorem reaches_later {σ τ : SystemState} (h : SystemReachable σ) (hr : system.Reaches σ τ) :
    Later σ.shared τ.shared := by
  induction hr with
  | refl => exact .refl _
  | tail hpre hst ih =>
      obtain ⟨a, -, hs⟩ := hst
      exact ih.trans (step_advance (h.reaches hpre) hs).later

end Discode
