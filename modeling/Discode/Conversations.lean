import Discode.JobsInTransit
import Discode.Superseded
import Discode.TokenProof

/-!
# Tool conversations

A resume token names a conversation of the tool, and resume-by-name hands a conversation
over to a new session.  The heirs of a session form a forest, and every token that a session
holds began in one of its ancestors.
-/

set_option autoImplicit false

namespace Discode

open ProcessPool (Machine)

/-- The session in which the conversation of the token began. -/
def Token.root (t : Token) : Option SessionId :=
  match t.origin with
  | .parsed sid _ _ | .minted sid => some sid
  | .given => none

/-- The heir was created as the continuation of its predecessor. -/
def TookOver (log : List Event) (predecessor heir : SessionId) : Prop :=
  ∃ token, .tookOver heir predecessor token ∈ log

abbrev StemsFrom (log : List Event) : SessionId → SessionId → Prop :=
  Relation.ReflTransGen (TookOver log)

/-- The conversation of the token began in the session or in an ancestor of it. -/
def Stems (log : List Event) (sid : SessionId) (token : Option Token) : Prop :=
  ∀ t, token = some t → ∃ root, t.root = some root ∧ StemsFrom log root sid

namespace Stems

variable {log : List Event} {sid : SessionId} {token : Option Token}

theorem none : Stems log sid none := fun _ ht ↦ nomatch ht

theorem of_root (h : ∀ t, token = some t → t.root = some sid) : Stems log sid token :=
  fun t ht ↦ ⟨sid, h t ht, .refl⟩

theorem append (h : Stems log sid token) (new : List Event) : Stems (new ++ log) sid token := by
  intro t ht
  obtain ⟨root, hroot, hstems⟩ := h t ht
  have hgrow : ∀ a b, TookOver log a b → TookOver (new ++ log) a b := by
    rintro a b ⟨token', hmem⟩
    exact ⟨token', List.mem_append_right new hmem⟩
  exact ⟨root, hroot, Relation.ReflTransGen.mono hgrow _ _ hstems⟩

theorem orElse {token' : Option Token} (h : Stems log sid token) (h' : Stems log sid token') :
    Stems log sid (token <|> token') := by
  cases token with
  | none => exact h'
  | some t => exact h

theorem heir {heir : SessionId} (h : Stems log sid token) (htook : TookOver log sid heir) :
    Stems log heir token := by
  intro t ht
  obtain ⟨root, hroot, hstems⟩ := h t ht
  exact ⟨root, hroot, hstems.tail htook⟩

end Stems

/-! ## Every token stems from an ancestor -/

structure TokensStem (w : World) : Prop where
  column : ∀ sid c, w.db.core? sid = some c → Stems w.log sid c.token
  job : ∀ p, w.Transports (.createSession p) → Stems w.log p.sessionId p.resumeToken

def Process.TokenStems (p : Process) (w : World) : Prop :=
  match p with
  | .createSaga s => s.request.resumeToken = none
  | .createJob j => Stems w.log j.payload.sessionId j.payload.resumeToken ∧
      ∀ token, j.stage = .ready token → Stems w.log j.payload.sessionId token
  | .relay b => ∀ job, .createSession job ∈ (Process.relay b).batch →
      Stems w.log job.sessionId job.resumeToken
  | _ => True

theorem Process.TokenStems.append {p : Process} {w w' : World} (h : p.TokenStems w)
    (hlog : ∃ new, w'.log = new ++ w.log) : p.TokenStems w' := by
  obtain ⟨new, hnew⟩ := hlog
  unfold TokenStems at h ⊢
  rw [hnew]
  cases p with
  | createSaga s => exact h
  | createJob j => exact ⟨h.1.append new, fun token hstage ↦ (h.2 token hstage).append new⟩
  | relay b => exact fun job hjob ↦ (h job hjob).append new
  | _ => trivial

/-- Ordinary writers hand a session no token. -/
theorem CoreStep.token_of_ordinary {W : Writer → Prop} {c : Option SessionCore}
    {d' : SessionCore} (h : CoreStep W c (some d')) (hW : ∀ x, W x → x.isOrdinary = true) :
    d'.token = none ∨ ∃ d, c = some d ∧ d'.token = d.token := by
  cases h with
  | same => exact .inr ⟨d', rfl, rfl⟩
  | created _ _ _ htoken _ => exact .inl htoken
  | move x d hx _ =>
      rcases x.token_of_isOrdinary (hW x hx) d with heq | hnone
      · exact .inr ⟨d, rfl, heq⟩
      · exact .inl hnone

namespace TokensStem

variable {w w' : World}

theorem ordinary (h : TokensStem w)
    (hcore : ∀ sid, CoreStep Ordinary (w.db.core? sid) (w'.db.core? sid))
    (hlog : ∃ new, w'.log = new ++ w.log) (sid : SessionId) (c' : SessionCore)
    (hc' : w'.db.core? sid = some c') : Stems w'.log sid c'.token := by
  obtain ⟨new, hnew⟩ := hlog
  have hstep := hcore sid
  rw [hc'] at hstep
  rcases hstep.token_of_ordinary fun _ hx ↦ hx with hnone | ⟨c, hc, heq⟩
  · rw [hnone]
    exact .none
  · rw [heq, hnew]
    exact (h.column sid c hc).append new

theorem revives (h : TokensStem w) {sid : SessionId} {c c' : SessionCore}
    (hrev : Revives sid c c' w w') (hstems : Stems w.log sid c'.token) (s : SessionId)
    (d : SessionCore) (hd : w'.db.core? s = some d) : Stems w'.log s d.token := by
  rw [hrev.log]
  by_cases hs : s = sid
  · subst hs
    cases hrev.after.symm.trans hd
    exact hstems.append [_]
  · rw [hrev.others s hs] at hd
    exact (h.column s d hd).append [_]

/-- A job in transit after the step was so before, was in a relay's batch or is new. -/
theorem jobs (h : TokensStem w) {batch : List Envelope} (hmoves : Moves batch w w')
    (hlog : ∃ new, w'.log = new ++ w.log)
    (hbatch : ∀ job, .createSession job ∈ batch → Stems w.log job.sessionId job.resumeToken)
    (hnew : ∀ job, .createSession job ∈ w.db.written w'.db →
      Stems w'.log job.sessionId job.resumeToken) (job : CreateJobPayload)
    (hjob : w'.Transports (.createSession job)) :
    Stems w'.log job.sessionId job.resumeToken := by
  obtain ⟨new, hnew'⟩ := hlog
  rcases hmoves.transports hjob with ⟨e₀, htrans, hsame⟩ | hmem | hmem
  · rw [hnew']
    rcases hsame with heq | ⟨p, threadId, rfl, heq⟩
    · exact (h.job job (heq ▸ htrans)).append new
    · cases heq
      exact (h.job p htrans).append new
  · rw [hnew']
    exact (hbatch job hmem).append new
  · exact hnew job hmem

end TokensStem

theorem InputHandler.step_column {pid : ℕ} {w w' : World} {p : InputHandler}
    {q : Option InputHandler} {a : InputAction} (h : TokensStem w) (htok : p.TokenOk pid w)
    (hs : p.step pid w a = some (w', q)) (hlog : ∃ new, w'.log = new ++ w.log) (sid : SessionId)
    (c' : SessionCore) (hc' : w'.db.core? sid = some c') : Stems w'.log sid c'.token := by
  by_cases ha : a = .record
  · subst ha
    simp only [step] at hs
    split at hs
    · rename_i version reply token hstage
      cases hs
      unfold TokenOk at htok
      rw [hstage] at htok
      rw [World.db_emit, World.db_setDb, recordResult_core?] at hc'
      obtain ⟨c, hc, rfl⟩ := Option.map_eq_some_iff.mp hc'
      have hold := (h.column sid c hc).append [.recorded pid p.session p.key reply]
      split
      · rename_i hown
        refine Stems.orElse (Stems.of_root fun t ht ↦ ?_) hold
        rw [Token.root, htok.2 t ht]
        exact congrArg some hown.1.symm
      · exact hold
    · cases hs
  · exact h.ordinary (fun s ↦ (step_core hs s).2 ha) hlog sid c' hc'

/-- The create saga hands its predecessor's token to the job of the heir. -/
theorem CreateSaga.step_job {pid : ℕ} {w w' : World} {p : CreateSaga} {q : Option CreateSaga}
    {a : CreateSagaAction} (h : TokensStem w) (hnone : p.request.resumeToken = none)
    (hs : p.step pid w a = some (w', q)) {predecessor : Option SessionId}
    (ha : a = .commit predecessor) (job : CreateJobPayload)
    (hjob : .createSession job ∈ w.db.written w'.db) :
    Stems w'.log job.sessionId job.resumeToken := by
  subst ha
  simp only [step] at hs
  split at hs
  · rename_i snapshot hstage
    obtain ⟨db, hdb, he⟩ := Option.map_eq_some_iff.mp hs
    obtain ⟨job', hwritten, hsid, htoken⟩ := createSession_written hdb
    have hcreates := createSession_creates hdb
    cases predecessor with
    | none =>
        cases he
        rw [World.db_release, World.db_setDb, hwritten] at hjob
        cases List.mem_singleton.mp hjob
        rw [htoken, CreateRequest.resumeTokenToUse, hnone]
        exact .none
    | some p' =>
        cases he
        rw [World.db_emit, World.db_release, World.db_setDb, hwritten] at hjob
        cases List.mem_singleton.mp hjob
        obtain ⟨r, hr, -⟩ := hcreates.predecessor p' rfl
        have hcolumn : w.db.core? p' = some r.core := by
          rw [Database.core?, hr]
          rfl
        have hheld : p.request.resumeTokenToUse w.db (some p') = r.core.token := by
          rw [CreateRequest.resumeTokenToUse, hnone, Option.bind_some, hr, Option.bind_some]
          rfl
        rw [htoken, hheld, hsid]
        have hstems := (h.column p' _ hcolumn).append
          [.tookOver p.request.sessionId p' r.core.token]
        exact hstems.heir ⟨_, List.mem_cons_self⟩
  · cases hs

theorem execStep_stems {σ : SystemState} {pid : ℕ} {w' : World} {p : Process} {a : ExecAction}
    {q : Option Process} (hp : σ.procs pid = some p) (h : TokensStem σ.shared)
    (hok : p.Ok pid σ.shared) (htok : p.TokenOk pid σ.shared) (hstems : p.TokenStems σ.shared)
    (hs : execStep pid σ.shared p a = some (w', q)) : TokensStem w' := by
  have hlog : ∃ new, w'.log = new ++ σ.shared.log := by
    obtain ⟨new, hnew, -⟩ := execStep_emits hs
    exact ⟨new, hnew⟩
  have hcommit := execStep_commit hp hs
  constructor
  · cases execStep_cases hs with
    | crash => exact h.ordinary (fun _ ↦ .same _) hlog
    | createSaga hsaga => exact h.ordinary (CreateSaga.step_tx hsaga).tx.core hlog
    | createJob hjob =>
        rcases CreateJob.step_revives hjob with ⟨hcore, -⟩ | ⟨c, c', token, hrev, -, hstage, heq⟩
        · exact h.ordinary hcore hlog
        · apply h.revives hrev
          rw [heq]
          exact (hstems.2 token hstage).orElse (h.column _ c hrev.before)
    | resumeJob hjob =>
        rcases ResumeJob.step_revives hjob with
          ⟨hcore, -⟩ | ⟨c, c', row, hrev, hstage, hresuming, hv, -⟩
        · exact h.ordinary hcore hlog
        · apply h.revives hrev
          rcases ResumeJob.revives_token htok hrev hstage hresuming hv with hown | hminted
          · rw [hown]
            exact h.column _ c hrev.before
          · refine .of_root fun t ht ↦ ?_
            rw [Token.root, hminted t ht]
    | input hinput => exact InputHandler.step_column h htok hinput hlog
    | recovery hrec => exact h.ordinary (Recovery.step_tx hrec).tx.core hlog
    | release => exact h.ordinary (fun _ ↦ .same _) hlog
    | sweep p =>
        refine h.ordinary ?_ hlog
        by_cases hturns : ∃ batch, p.kind = .turnResults batch
        · obtain ⟨batch, hkind⟩ := hturns
          unfold Sweep.step
          rw [hkind]
          exact fun _ ↦ .same _
        · exact (p.step_quiet _ (not_exists.mp hturns)).core
    | drift hdrift => exact h.ordinary (DriftSweep.step_tx hdrift).tx.core hlog
    | relay hrelay => exact h.ordinary (RelayBatch.step_quiet hok hrelay).core hlog
    | trim htrim => exact h.ordinary (TrimCall.step_quiet htrim).core hlog
    | reply hreply => exact h.ordinary (replyStep_tx hreply).tx.core hlog
  · refine h.jobs (execStep_moves hs) hlog (fun job hjob ↦ ?_) fun job hjob ↦ ?_
    · cases p with
      | relay b => exact hstems job hjob
      | _ => cases hjob
    · by_cases hsaga : ∃ predecessor, a = .createSaga (.commit predecessor)
      · obtain ⟨predecessor, rfl⟩ := hsaga
        cases execStep_cases hs with
        | createSaga hsaga => exact CreateSaga.step_job h hstems hsaga rfl job hjob
      · refine absurd hjob (hcommit.writes_no_creation (fun pid' predecessor he ↦ hsaga ?_) job)
        cases he
        exact ⟨predecessor, rfl⟩

theorem CreateSaga.step_request {pid : ℕ} {w w' : World} {p r : CreateSaga}
    {a : CreateSagaAction} (hs : p.step pid w a = some (w', some r)) : r.request = p.request := by
  cases a with
  | acquire =>
      simp only [step] at hs
      split at hs
      · split at hs <;> cases hs
        rfl
      · cases hs
  | count =>
      simp only [step] at hs
      split at hs
      · split at hs <;> cases hs
        rfl
      · cases hs
  | beginSelect =>
      simp only [step] at hs
      split at hs <;> cases hs
      rfl
  | commit predecessor =>
      simp only [step] at hs
      split at hs
      · obtain ⟨db, -, he⟩ := Option.map_eq_some_iff.mp hs
        cases he
      · cases hs

/-- A create job is ready with the token of its payload or with one minted for its session. -/
theorem CreateJob.step_ready {w w' : World} {p r : CreateJob} {a : CreateJobAction}
    (hs : p.step w a = some (w', some r)) : r.payload = p.payload ∧
      ∀ token, r.stage = .ready token → ∃ minted : Option PyStr,
        token = (p.payload.resumeToken <|>
          minted.map fun value ↦ ⟨value, .minted p.payload.sessionId⟩) := by
  cases a with
  | lockRow denied =>
      simp only [step] at hs
      split at hs
      · split at hs
        · cases hs
        · split at hs <;> cases hs
          refine ⟨rfl, fun token hready ↦ ?_⟩
          dsimp only at hready
          split at hready <;> cases hready
      · cases hs
  | getAdapter unknown minted =>
      simp only [step] at hs
      split at hs <;> cases hs
      refine ⟨rfl, fun token hready ↦ ?_⟩
      dsimp only at hready
      split at hready
      · cases hready
      · exact ⟨minted, (CreateJobStage.ready.inj hready).symm⟩
  | release =>
      rcases (CreateJob.release_cases hs).2 with hend | ⟨reason, row, -, -, -, hr⟩
      · cases hend
      · cases hr
        exact ⟨rfl, fun _ hready ↦ (by cases hready)⟩
  | fail =>
      simp only [step] at hs
      split at hs <;> cases hs
  | commit =>
      simp only [step] at hs
      split at hs
      · split at hs <;> cases hs
        exact ⟨rfl, fun _ hready ↦ (by cases hready)⟩
      · cases hs
  | register =>
      simp only [step] at hs
      split at hs <;> cases hs

theorem RelayBatch.step_batch {w w' : World} {p r : RelayBatch} {a : RelayAction}
    (hs : p.step w a = some (w', some r)) : (Process.relay r).batch ⊆ (Process.relay p).batch := by
  cases a with
  | xadd =>
      simp only [step] at hs
      split at hs
      · cases hs
      · rename_i hrows
        cases hs
        rw [Process.batch, Process.batch, hrows]
        exact List.subset_cons_self _ _
  | xaddRaises =>
      simp only [step] at hs
      split at hs
      · cases hs
      · rename_i hrows
        cases hs
        rw [Process.batch, Process.batch, hrows]
        exact List.subset_cons_self _ _
  | redisUnavailable =>
      cases hs
      exact List.nil_subset _
  | commit =>
      simp only [step] at hs
      split at hs <;> cases hs

theorem execStep_tokenStems {pid : ℕ} {w w' : World} {p r : Process} {a : ExecAction}
    (hstems : p.TokenStems w) (hs : execStep pid w p a = some (w', some r)) :
    r.TokenStems w' := by
  have hlog : ∃ new, w'.log = new ++ w.log := by
    obtain ⟨new, hnew, -⟩ := execStep_emits hs
    exact ⟨new, hnew⟩
  generalize hq : some r = q at hs
  cases execStep_cases hs with
  | crash | sweep => cases hq
  | release =>
      cases hq
      trivial
  | createSaga hsaga =>
      obtain ⟨r', rfl, rfl⟩ := Option.map_eq_some_iff.mp hq.symm
      exact (congrArg CreateRequest.resumeToken (CreateSaga.step_request hsaga)).trans hstems
  | createJob hjob =>
      obtain ⟨r', rfl, rfl⟩ := Option.map_eq_some_iff.mp hq.symm
      obtain ⟨new, hnew⟩ := hlog
      obtain ⟨hpayload, hready⟩ := CreateJob.step_ready hjob
      unfold Process.TokenStems
      dsimp only
      rw [hpayload, hnew]
      refine ⟨hstems.1.append new, fun token hstage ↦ ?_⟩
      obtain ⟨minted, rfl⟩ := hready token hstage
      refine (hstems.1.append new).orElse (.of_root fun t ht ↦ ?_)
      obtain ⟨value, -, rfl⟩ := Option.map_eq_some_iff.mp ht
      rfl
  | relay hrelay =>
      obtain ⟨r', rfl, rfl⟩ := Option.map_eq_some_iff.mp hq.symm
      have hbatch := RelayBatch.step_batch hrelay
      exact (show (Process.relay r').TokenStems w from fun job hjob ↦
        hstems job (hbatch hjob)).append hlog
  | reply hreply =>
      obtain ⟨⟨s, next⟩, -, he⟩ := Option.map_eq_some_iff.mp hreply
      cases he
      cases hq
      trivial
  | _ =>
      obtain ⟨r', -, rfl⟩ := Option.map_eq_some_iff.mp hq.symm
      trivial

theorem spawnStep_tokenStems {pid : ℕ} {w w' : World} {n : SpawnAction} {p : Process}
    (h : TokensStem w) (hs : spawnStep pid w n = some (w', p)) : p.TokenStems w := by
  cases (spawnStep_cases hs).2 with
  | createSaga htoken => exact htoken
  | @createJob hostId entry job hpending =>
      have hstems := h.job job (.inr ⟨_, entry, mem_of_pendingJob? hpending⟩)
      exact ⟨hstems, fun _ hstage ↦ nomatch hstage⟩
  | relay producer =>
      intro job hjob
      obtain ⟨⟨id, row⟩, hmem, he⟩ := List.mem_map.mp hjob
      have hrow := KeyedTable.mem_select_iff.mp (List.mem_of_mem_take hmem)
      exact h.job job (.inl ⟨id, row, hrow.1, he⟩)
  | _ => trivial

theorem envStep_stems {σ : SystemState} {w' : World} {e : EnvAction} (h : TokensStem σ.shared)
    (hs : envStep σ.shared e = some w') :
    TokensStem w' ∧ ∃ new, w'.log = new ++ σ.shared.log := by
  have hlog : ∃ new, w'.log = new ++ σ.shared.log := by
    rcases envStep_log hs with heq | ⟨sid, guildId, row, db, -, -, -, rfl⟩
    · exact ⟨[], heq⟩
    · exact ⟨[_], rfl⟩
  have hcommit := envStep_commit hs
  refine ⟨⟨h.ordinary (envStep_core hs) hlog, ?_⟩, hlog⟩
  apply h.jobs (envStep_moves hs) hlog (fun _ hjob ↦ nomatch hjob)
  intro job hjob
  exact absurd hjob (hcommit.writes_no_creation (fun _ _ he ↦ nomatch he) job)

theorem stems_proof : system.Proof (fun _ _ ↦ True)
    (fun w ↦ (TurnInv w ∧ TokenInv w) ∧ TokensStem w)
    (fun pid p w ↦ (p.Ok pid w ∧ p.TokenOk pid w) ∧ p.TokenStems w) := by
  apply token_proof.and
  · intro σ e s _ hstems _ hs
    obtain ⟨hstems', hlog⟩ := envStep_stems hstems hs
    exact ⟨hstems', fun pid p _ hp ↦ hp.append hlog⟩
  · intro σ n s p _ hstems _ hs
    replace hs : spawnStep σ.next σ.shared n = some (s, p) := hs
    obtain rfl := spawnStep_world hs
    exact ⟨hstems, spawnStep_tokenStems hstems hs, fun _ _ _ _ hr ↦ hr⟩
  · intro σ pid p a s p' h hstems _ hp hok hpstems hs
    refine ⟨execStep_stems hp hstems hok.1 hok.2 hpstems hs, fun r hr ↦ ?_, ?_⟩
    · subst hr
      exact execStep_tokenStems hpstems hs
    · intro q r _ _ hr
      obtain ⟨new, hnew, -⟩ := execStep_emits hs
      exact hr.append ⟨new, hnew⟩

theorem FreshWorld.tokensStem {w : World} (h : FreshWorld w) : TokensStem w := by
  obtain ⟨settings, redactor, rfl⟩ := h
  refine ⟨fun sid c hc ↦ (nomatch hc), fun p hp ↦ ?_⟩
  rcases hp with ⟨id, row, hrow, -⟩ | ⟨key, id, hmem⟩
  · cases hrow
  · cases hmem

theorem stems_annotated {σ : SystemState} (h : SystemReachable σ) :
    Machine.Annotated (fun w ↦ (TurnInv w ∧ TokenInv w) ∧ TokensStem w)
      (fun pid p w ↦ (p.Ok pid w ∧ p.TokenOk pid w) ∧ p.TokenStems w) σ :=
  stems_proof.annotated (fun _ hw ↦ ⟨⟨hw.turnInv, hw.tokenInv⟩, hw.tokensStem⟩) h

end Discode
