import Discode.Transitions

/-!
# The version fence

Once a session is no longer live at a version it never is again, and nothing that belongs
to that version and is found afterwards starts a subprocess, posts a chunk or writes the
session's resume token.
-/

set_option autoImplicit false

namespace Discode

/-! ## Events that need a live session -/

/-- The checks under which a subprocess may start or a chunk may be posted. -/
def Event.isCheckAt (sid : SessionId) (v : ℕ) : Event → Bool
  | admitted _ s v' _ | chunkChecked _ s v' _ => s = sid ∧ v' = v
  | _ => false

theorem liveAt_of_info {db : Database} {hostId : HostId} {sid : SessionId} {v : ℕ}
    (h : SessionInfo.liveAt (sessionLookup db hostId sid) v = true) :
    ∃ c, db.core? sid = some c ∧ c.LiveAt v := by
  unfold SessionInfo.liveAt sessionLookup at h
  cases hr : db.session? sid with
  | none =>
      rw [hr] at h
      cases h
  | some r =>
      rw [hr, Option.filter_some] at h
      split at h
      · obtain ⟨hlive, hv⟩ := of_decide_eq_true h
        exact ⟨r.core, by rw [Database.core?, hr]; rfl, hv, hlive⟩
      · cases h

theorem admitTurn_live {p : InputJobPayload} {v : ℕ} {db db' : Database}
    (h : admitTurn p v db = some db') : ∃ c, db.core? p.sessionId = some c ∧ c.LiveAt v := by
  unfold admitTurn at h
  split at h
  · cases h
  · rename_i r hr
    split at h
    · cases h
    · rename_i hguard
      obtain ⟨hv, hlive⟩ := not_or.mp hguard
      rw [Bool.not_eq_true, Bool.not_eq_false'] at hlive
      exact ⟨r.core, by rw [Database.core?, hr]; rfl, not_not.mp hv, hlive⟩

/-- A check only passes while the session is live at its version. -/
theorem Event.EmittedBy.live {pid : ℕ} {p : Process} {w : World} {e : Event} {sid : SessionId}
    {v : ℕ} (he : e.EmittedBy pid p w) (hcheck : e.isCheckAt sid v = true) :
    ∃ c, w.db.core? sid = some c ∧ c.LiveAt v := by
  cases e with
  | admitted q s v' key =>
      obtain ⟨-, h, row, db, rfl, -, rfl, -, -, hadmit⟩ := he
      obtain ⟨rfl, rfl⟩ := of_decide_eq_true hcheck
      exact admitTurn_live hadmit
  | chunkChecked q s v' chunk =>
      obtain ⟨-, hostId, r, rfl, -, -, -, -, hlive⟩ := he
      obtain ⟨rfl, rfl⟩ := of_decide_eq_true hcheck
      exact liveAt_of_info hlive
  | _ => cases hcheck

/-- After a session has left version `v` for good, the history gets no check of `v` any more. -/
theorem checks_before_departure {σ τ : SystemState} (h : SystemReachable σ)
    (hr : system.Reaches σ τ) {sid : SessionId} {v : ℕ} {c : SessionCore}
    (hc : σ.shared.db.core? sid = some c) (hleft : c.LeftAt v) {e : Event}
    (he : e ∈ τ.shared.log) (hcheck : e.isCheckAt sid v = true) : e ∈ σ.shared.log := by
  induction hr with
  | refl => exact he
  | tail hpre hst ih =>
      obtain ⟨a, -, hs⟩ := hst
      obtain ⟨new, hnew, -, hemit⟩ := step_emits hs
      rw [hnew, List.mem_append] at he
      rcases he with he | he
      · rcases hemit e he with ⟨s, version, rfl⟩ | ⟨pid, b, p, -, hp, hby⟩
        · cases hcheck
        · obtain ⟨c', hc', hlive⟩ := hby.live hcheck
          obtain ⟨c'', hc'', -, hleft', -⟩ := (reaches_later h hpre).session sid c hc
          cases hc'.symm.trans hc''
          exact absurd hlive (hleft' v hleft).not_liveAt
      · exact ih he

/-! ## Starts and chunks follow their checks -/

theorem step_log_subset {σ τ : SystemState} {a : SystemAction} (h : system.step σ a = some τ)
    {e : Event} (he : e ∈ σ.shared.log) : e ∈ τ.shared.log := by
  obtain ⟨new, hnew, -, -⟩ := step_emits h
  rw [hnew]
  exact List.mem_append_right _ he

/-- Every start was admitted, and every chunk had a check of its own. -/
structure Checked (σ : SystemState) : Prop where
  started : ∀ pid sid v key token, .started pid sid v key token ∈ σ.shared.log →
    .admitted pid sid v key ∈ σ.shared.log
  posted : ∀ q sid v chunk, .chunkPosted q sid v chunk ∈ σ.shared.log →
    .chunkChecked q sid v chunk ∈ σ.shared.log
  sending : ∀ pid hostId r, σ.procs pid = some (.reply hostId r) → r.stage = .send →
    .chunkChecked pid r.session r.version r.idx ∈ σ.shared.log

theorem ReplyRequest.step_send {pid : ℕ} {info : Option SessionInfo} {s s' : ReplyStore}
    {p q : ReplyRequest} {a : ReplyAction} (h : p.step pid info s a = some (s', q))
    (hq : q.stage = .send) :
    ∃ allowed, a = .check allowed ∧ q.session = p.session ∧ q.version = p.version ∧
      q.idx = p.idx := by
  cases a with
  | check allowed =>
      simp only [ReplyRequest.step] at h
      split at h <;> cases h
      exact ⟨allowed, rfl, rfl, rfl, rfl⟩
  | lookup allowed =>
      simp only [ReplyRequest.step] at h
      split at h <;> cases h
      unfold ReplyRequest.lookup at hq
      split at hq
      · cases hq
      · split at hq
        · cases hq
        · split at hq
          · cases hq
          · split at hq <;> cases hq
  | readOutcome =>
      simp only [ReplyRequest.step] at h
      split at h
      · split at h
        · cases h
          simp only [ReplyRequest.advance] at hq
          split at hq <;> cases hq
        · cases h
          cases hq
      · cases h
  | claim =>
      simp only [ReplyRequest.step] at h
      split at h
      · split at h <;> cases h <;> cases hq
      · cases h
  | send result =>
      simp only [ReplyRequest.step] at h
      split at h
      · cases result <;> cases h <;> cases hq
      · cases h
  | release =>
      simp only [ReplyRequest.step] at h
      split at h
      · rename_i result hstage
        cases h
        cases result with
        | ok messageId =>
            simp only [ReplyRequest.advance] at hq
            split at hq <;> cases hq
        | error status => cases hq
      · cases h
  | _ =>
      simp only [ReplyRequest.step] at h
      split at h
      · cases h
        cases hq
      · cases h

/-- A new request starts with its lookup. -/
theorem spawnStep_reply {pid : ℕ} {w w' : World} {n : SpawnAction} {hostId : HostId}
    {r : ReplyRequest} (h : spawnStep pid w n = some (w', .reply hostId r)) :
    r.stage = .lookup := by
  cases (spawnStep_cases h).2
  rfl

/-- A request that is about to send has just passed its check. -/
theorem execStep_send {pid : ℕ} {w w' : World} {p : Process} {a : ExecAction} {hostId : HostId}
    {r : ReplyRequest} (h : execStep pid w p a = some (w', some (.reply hostId r)))
    (hr : r.stage = .send) : .chunkChecked pid r.session r.version r.idx ∈ w'.log := by
  generalize hq : some (Process.reply hostId r) = q at h
  cases execStep_cases h with
  | crash | release | sweep => cases hq
  | reply hstep =>
      obtain ⟨⟨s, next⟩, hnext, he⟩ := Option.map_eq_some_iff.mp hstep
      cases he
      cases hq
      obtain ⟨allowed, rfl, hsession, hversion, hidx⟩ := ReplyRequest.step_send hnext hr
      rw [hsession, hversion, hidx]
      refine List.mem_append_left _ ?_
      simp [ReplyRequest.events, hr]
  | _ =>
      obtain ⟨p', -, he⟩ := Option.map_eq_some_iff.mp hq.symm
      cases he

theorem checked {σ : SystemState} (h : SystemReachable σ) : Checked σ := by
  refine h.invariant ?_ ?_
  · rintro w ⟨settings, redactor, rfl⟩
    refine ⟨?_, ?_, ?_⟩
    · exact fun _ _ _ _ _ he ↦ nomatch he
    · exact fun _ _ _ _ he ↦ nomatch he
    · exact fun _ _ _ hp ↦ nomatch hp
  · intro σ a τ hσ ih _ hs
    obtain ⟨new, hnew, -, hemit⟩ := step_emits hs
    refine ⟨fun pid sid v key token he ↦ ?_, fun q sid v chunk he ↦ ?_,
      fun pid hostId r hp hr ↦ ?_⟩
    · rw [hnew, List.mem_append] at he
      rcases he with he | he
      · rcases hemit _ he with ⟨_, _, he⟩ | ⟨pid', b, p, -, hp, hby⟩
        · cases he
        · obtain ⟨rfl, g, row, rfl, hstage, rfl, rfl, rfl, rfl⟩ := hby
          obtain ⟨v', hok⟩ := (system_annotated hσ).assert pid _ hp
          have hst := hok.stage
          rw [hstage] at hst
          obtain ⟨hrow, -, -, -, hlog⟩ := hst
          refine step_log_subset hs (mem_turnLog.mp (?_ : _ ∈ turnLog g.key σ.shared.log)).1
          rw [hlog, hrow]
          exact List.mem_singleton_self _
      · exact step_log_subset hs (ih.started _ _ _ _ _ he)
    · rw [hnew, List.mem_append] at he
      rcases he with he | he
      · rcases hemit _ he with ⟨_, _, he⟩ | ⟨pid', b, p, -, hp, hby⟩
        · cases he
        · obtain ⟨rfl, hostId, r, rfl, hstage, rfl, rfl, rfl⟩ := hby
          exact step_log_subset hs (ih.sending _ hostId r hp hstage)
      · exact step_log_subset hs (ih.posted _ _ _ _ he)
    · rcases ProcessPool.Machine.step_procs hs hp with
        hold | ⟨n, -, -, hspawn⟩ | ⟨b, p, -, hp', hb⟩
      · exact step_log_subset hs (ih.sending pid hostId r hold hr)
      · have hnew : spawnStep pid σ.shared n = some (τ.shared, .reply hostId r) := hspawn
        rw [spawnStep_reply hnew] at hr
        cases hr
      · exact execStep_send hb hr

/-! ## The resume token of the session -/

/-- A handler changes the resume token only when it records a result, and only while the
session is live at the version of its job. -/
theorem InputHandler.step_token {pid v : ℕ} {w w' : World} {p : InputHandler}
    {q : Option InputHandler} {a : InputAction} (hok : p.OkAt pid v w)
    (h : p.step pid w a = some (w', q)) {c : SessionCore} (hc : w.db.core? p.session = some c)
    (hlive : ¬ c.LiveAt v) : ∃ c', w'.db.core? p.session = some c' ∧ c'.token = c.token := by
  have hst := hok.stage
  cases step_effect h with
  | persistIntent hstage hdb =>
      rw [hstage] at hst
      obtain ⟨c', hc', hl⟩ := admitTurn_live hdb
      cases hc.symm.trans hc'
      rw [hst.1] at hl
      exact absurd hl hlive
  | record hstage =>
      rw [hstage] at hst
      obtain rfl := hst.1
      obtain ⟨r, hr, rfl⟩ := Option.map_eq_some_iff.mp hc
      refine ⟨r.core, ?_, rfl⟩
      have hdead : ¬ (r.lifecycleVersion = _ ∧ r.status.isLive = true) := hlive
      rw [World.db_emit, World.db_setDb, recordResult, Database.core?,
        Database.session?_updateSession, if_pos rfl, Database.session?_updateTurn, hr,
        Option.map_some, if_neg hdead]
      rfl
  | _ => exact ⟨c, hc, rfl⟩

/-! ## The fence -/

/-- The lifecycle version never decreases; and after a session that was live at version `v`
stopped being so, it never is again, no handler of version `v` that was not yet admitted starts
a subprocess, no request posts a chunk that had not passed its own check, and no handler of
version `v` changes the session's resume token. -/
theorem version_fence {σ τ : SystemState} (h : SystemReachable σ) (hστ : system.Reaches σ τ)
    {sid : SessionId} {r : SessionRow} (hr : σ.shared.db.session? sid = some r) :
    ∃ r', τ.shared.db.session? sid = some r' ∧ r.lifecycleVersion ≤ r'.lifecycleVersion ∧
      ∀ v, r.core.LiveAt v → ¬ r'.core.LiveAt v → ∀ ρ, system.Reaches τ ρ →
        (∀ r'', ρ.shared.db.session? sid = some r'' → ¬ r''.core.LiveAt v) ∧
        (∀ pid key token, .started pid sid v key token ∈ ρ.shared.log →
          .admitted pid sid v key ∈ τ.shared.log) ∧
        (∀ request chunk, .chunkPosted request sid v chunk ∈ ρ.shared.log →
          .chunkChecked request sid v chunk ∈ τ.shared.log) ∧
        ∀ pid p a ρ' r'', ρ.procs pid = some (.input p) → p.session = sid →
          p.payload.lifecycleVersion = some v → system.step ρ (.exec pid a) = some ρ' →
          ρ.shared.db.session? sid = some r'' → ∃ r₁, ρ'.shared.db.session? sid = some r₁ ∧
            r₁.toolResumeToken = r''.toolResumeToken := by
  have hc : σ.shared.db.core? sid = some r.core := by rw [Database.core?, hr]; rfl
  obtain ⟨c', hc', hversion, -, hlive⟩ := (reaches_later h hστ).session sid r.core hc
  obtain ⟨r', hr', rfl⟩ := Option.map_eq_some_iff.mp hc'
  refine ⟨r', hr', hversion, fun v hv hgone ρ hτρ ↦ ?_⟩
  have hτ : SystemReachable τ := h.reaches hστ
  have hρ : SystemReachable ρ := hτ.reaches hτρ
  have hleft : r'.core.LeftAt v := (hlive v hv).resolve_left hgone
  have hdead : ∀ r'', ρ.shared.db.session? sid = some r'' → ¬ r''.core.LiveAt v := by
    intro r'' hr''
    obtain ⟨c'', hc'', -, hleft', -⟩ := (reaches_later hτ hτρ).session sid r'.core hc'
    rw [Database.core?, hr''] at hc''
    cases hc''
    exact (hleft' v hleft).not_liveAt
  refine ⟨hdead, fun pid key token he ↦ ?_, fun request chunk he ↦ ?_, ?_⟩
  · exact checks_before_departure hτ hτρ hc' hleft ((checked hρ).started _ _ _ _ _ he)
      (decide_eq_true ⟨rfl, rfl⟩)
  · exact checks_before_departure hτ hτρ hc' hleft ((checked hρ).posted _ _ _ _ he)
      (decide_eq_true ⟨rfl, rfl⟩)
  · intro pid p a ρ' r'' hp hsid hversion' hs hr''
    obtain ⟨p', q, hp', hb, -⟩ := ProcessPool.Machine.step_exec hs
    cases hp.symm.trans hp'
    obtain ⟨v', hok⟩ := (system_annotated hρ).assert pid _ hp
    have hv' : v' = v := Option.some.inj (hok.job.version.symm.trans hversion')
    subst hv' hsid
    generalize ρ'.shared = w at hb ⊢
    cases execStep_cases hb with
    | crash => exact ⟨r'', hr'', rfl⟩
    | input hstep =>
        have hc'' : ρ.shared.db.core? p.session = some r''.core := by
          rw [Database.core?, hr'']
          rfl
        obtain ⟨c₁, hc₁, htoken⟩ := InputHandler.step_token hok hstep hc'' (hdead r'' hr'')
        obtain ⟨r₁, hr₁, rfl⟩ := Option.map_eq_some_iff.mp hc₁
        exact ⟨r₁, hr₁, htoken⟩

/-- The run that answers a turn, and then the archive of its session. -/
def leftState : SystemState :=
  (system.run answeredState [.env (.archive 1 1)]).get (by decide +kernel)

theorem version_fence_archived :
    ∃ r r', answeredState.shared.db.session? 1 = some r ∧
      leftState.shared.db.session? 1 = some r' ∧ r.lifecycleVersion ≤ r'.lifecycleVersion ∧
      ∀ pid key token, .started pid 1 0 key token ∈ leftState.shared.log →
        .admitted pid 1 0 key ∈ leftState.shared.log := by
  have hreach : system.Reaches answeredState leftState :=
    ProcessPool.Machine.reaches_of_run
      (show system.run answeredState [.env (.archive 1 1)] = some leftState from
        (Option.some_get _).symm)
  obtain ⟨r, hr⟩ : ∃ r, answeredState.shared.db.session? 1 = some r :=
    Option.isSome_iff_exists.mp (by decide +kernel)
  obtain ⟨r', hr', hversion, hfence⟩ := version_fence answeredState_reachable hreach hr
  have hcores : (answeredState.shared.db.session? 1).map
      (fun r ↦ (r.lifecycleVersion, r.status)) = some (0, .running) ∧
      (leftState.shared.db.session? 1).map
        (fun r ↦ (r.lifecycleVersion, r.status)) = some (1, .archived) := by
    decide +kernel
  rw [hr, hr'] at hcores
  simp only [Option.map_some, Option.some.injEq, Prod.mk.injEq] at hcores
  obtain ⟨⟨hv, hs⟩, hv', hs'⟩ := hcores
  have hlive : r.core.LiveAt 0 := ⟨hv, by rw [SessionRow.core, hs]; rfl⟩
  have hgone : ¬ r'.core.LiveAt 0 := fun hl ↦ by
    have hv₀ : r'.lifecycleVersion = 0 := hl.1
    omega
  exact ⟨r, r', hr, hr', hversion, (hfence 0 hlive hgone leftState .refl).2.1⟩

end Discode
