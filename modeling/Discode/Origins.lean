import Discode.Bookkeeping
import Discode.Conversations
import Discode.SessionIdentity
import Discode.WorkspaceJobs

/-!
# Where sessions and inputs come from

Every session stems from the request of a create saga, and every input that a runner handles
from an input saga.  What all requests of the sagas have in common holds of the sessions and the
inputs of every state.
-/

set_option autoImplicit false

namespace Discode

/-! ## Sessions -/

/-- A create saga was there before, for the same request, or has just been asked for. -/
theorem createSaga_before {σ τ : SystemState} {a : SystemAction}
    (hstep : system.step σ a = some τ) {pid : ℕ} {p : CreateSaga}
    (hp : τ.procs pid = some (.createSaga p)) :
    (∃ q, σ.procs pid = some (.createSaga q) ∧ q.request = p.request) ∨
      a = .spawn (.createSaga p.request) := by
  rcases ProcessPool.Machine.step_procs hstep hp with hold | ⟨n, rfl, -, hn⟩ | ⟨b, q, rfl, hq, hb⟩
  · exact .inl ⟨p, hold, rfl⟩
  · have hspawned : spawnStep pid σ.shared n = some (τ.shared, .createSaga p) := hn
    obtain ⟨-, hspawn⟩ := spawnStep_cases hspawned
    cases hspawn
    exact .inr rfl
  · obtain ⟨p₀, c, rfl, rfl, hproceeds⟩ := execStep_createSaga hb
    refine .inl ⟨p₀, hq, ?_⟩
    cases hproceeds <;> rfl

/-- The session is the one that the request asked for. -/
structure CreateRequest.Makes (req : CreateRequest) (sid : SessionId) (row : SessionRow) :
    Prop where
  sessionId : sid = req.sessionId
  guildId : row.guildId = req.guildId
  ownerId : row.ownerId = req.ownerId
  tool : row.tool = req.tool
  name : row.name = req.name
  cwdRealpath : row.cwdRealpath = req.cwdRealpath
  threadId : ∀ threadId, req.threadId = some threadId → row.threadId = some threadId

theorem CreateRequest.Makes.continues {req : CreateRequest} {sid : SessionId} {r r' : SessionRow}
    (h : req.Makes sid r) (hr : r.Continues r') : req.Makes sid r' where
  sessionId := h.sessionId
  guildId := (congrArg SessionIdentity.guildId hr.identity).trans h.guildId
  ownerId := (congrArg SessionIdentity.ownerId hr.identity).trans h.ownerId
  tool := (congrArg SessionIdentity.tool hr.identity).trans h.tool
  name := (congrArg SessionIdentity.name hr.identity).trans h.name
  cwdRealpath := (congrArg SessionIdentity.cwdRealpath hr.identity).trans h.cwdRealpath
  threadId threadId ht := hr.threadId threadId (h.threadId threadId ht)

/-- What the sessions and the sagas that create them were asked for meets `P`. -/
structure SessionsFrom (P : CreateRequest → Prop) (σ : SystemState) : Prop where
  sessions : ∀ sid row, σ.shared.db.session? sid = some row → ∃ req, P req ∧ req.Makes sid row
  sagas : ∀ pid p, σ.procs pid = some (.createSaga p) → P p.request

theorem SessionsFrom.mono {P Q : CreateRequest → Prop} {σ : SystemState} (h : SessionsFrom P σ)
    (hPQ : ∀ req, P req → Q req) : SessionsFrom Q σ where
  sessions sid row hrow := by
    obtain ⟨req, hreq, hmakes⟩ := h.sessions sid row hrow
    exact ⟨req, hPQ req hreq, hmakes⟩
  sagas pid p hp := hPQ _ (h.sagas pid p hp)

theorem SessionsFrom.step {P : CreateRequest → Prop} {σ τ : SystemState} {a : SystemAction}
    (h : SessionsFrom P σ) (hstep : system.step σ a = some τ)
    (ha : ∀ req, a = .spawn (.createSaga req) → P req) : SessionsFrom P τ := by
  have hkept : ∀ sid row, Option.Rel SessionRow.Continues (σ.shared.db.session? sid) (some row) →
      ∃ req, P req ∧ req.Makes sid row := by
    intro sid row hrel
    obtain ⟨r, hr, hcontinues⟩ := exists_of_rel_some hrel
    obtain ⟨req, hreq, hmakes⟩ := h.sessions sid r hr
    exact ⟨req, hreq, hmakes.continues hcontinues⟩
  constructor
  · intro sid row hrow
    rcases commit_same (step_commit hstep) with hsame | ⟨pid, req, snapshot, predecessor, hp, hnew⟩
    · exact hkept sid row (hrow ▸ hsame sid)
    · by_cases hsid : sid = req.sessionId
      · rw [hnew.rows, if_pos hsid] at hrow
        cases hrow
        exact ⟨req, h.sagas pid _ hp, hsid, rfl, rfl, rfl, rfl, rfl, fun _ ht ↦ ht⟩
      · exact hkept sid row (hrow ▸ hnew.same hsid)
  · intro pid p hp
    rcases createSaga_before hstep hp with ⟨q, hq, heq⟩ | hspawn
    · rw [← heq]
      exact h.sagas pid q hq
    · exact ha _ hspawn

/-! ## Inputs -/

theorem LifecycleTx.writes_no_input {W : Writer → Prop} {db db' : Database}
    (h : LifecycleTx W db db') (job : InputJobPayload) : .sendInput job ∉ db.written db' := by
  intro hmem
  obtain ⟨⟨id, row⟩, hrow, he⟩ := List.mem_map.mp hmem
  obtain ⟨hrow, hid⟩ := List.mem_filter.mp hrow
  have hinput : row.envelope.isInputJob = true := by
    rw [show row.envelope = .sendInput job from he]
    rfl
  have hold := (h.inputJobs id row hinput).mp (KeyedTable.mem_entries_iff.mp hrow)
  exact absurd (SerialTable.get?_lt_next hold) (Nat.not_lt.mpr (of_decide_eq_true hid))

/-- Only an input saga writes an input job. -/
theorem envStep_writes_input {w w' : World} {e : EnvAction} (h : envStep w e = some w')
    {job : InputJobPayload} (hjob : .sendInput job ∈ w.db.written w'.db) :
    ∃ key sid guildId text, e = .input key sid guildId text ∧ ∃ row threadId hostId,
      row.guildId = guildId ∧ job = acceptedJob key sid row threadId hostId text := by
  have hquiet : ∀ db : Database, db.outbox.next ≤ w.db.outbox.next →
      .sendInput job ∉ w.db.written db := by
    intro db hnext
    rw [Database.written_of_next_le hnext]
    exact List.not_mem_nil
  cases envStep_cases h with
  | tx htx => exact absurd hjob (htx.tx.writes_no_input job)
  | @input key sid guildId text db hsaga =>
      obtain ⟨row, threadId, hostId, -, -, hguild, -, haccept⟩ := runInputSaga_ok hsaga
      have haccepted := acceptInput_eq_some haccept
      refine ⟨key, sid, guildId, text, rfl, row, threadId, hostId, hguild, ?_⟩
      obtain ⟨⟨id, r⟩, hrow, he⟩ := List.mem_map.mp hjob
      obtain ⟨hrow, hid⟩ := List.mem_filter.mp hrow
      have hget := haccepted.outbox id
      rw [show db.outbox.get? id = some r from KeyedTable.mem_entries_iff.mp hrow] at hget
      split_ifs at hget with hnext
      · cases hget
        cases he
        rfl
      · exact absurd (SerialTable.get?_lt_next hget.symm) (Nat.not_lt.mpr (of_decide_eq_true hid))
  | readNew => exact absurd hjob (hquiet _ le_rfl)
  | retire => exact absurd hjob (hquiet _ le_rfl)
  | retryOutbox => exact absurd hjob (hquiet _ le_rfl)

/-- The background loops write no outbox row. -/
theorem RelayBatch.step_next {w w' : World} {p : RelayBatch} {q : Option RelayBatch}
    {a : RelayAction} (h : p.step w a = some (w', q)) : w'.db.outbox.next = w.db.outbox.next := by
  cases a with
  | redisUnavailable => cases h; rfl
  | _ =>
      simp only [RelayBatch.step] at h
      split at h <;> cases h
      rfl

theorem TrimCall.step_next {w w' : World} {p : TrimCall} {q : Option TrimCall}
    {a : TrimAction} (h : p.step w a = some (w', q)) : w'.db.outbox.next = w.db.outbox.next := by
  cases a with
  | trim =>
      simp only [TrimCall.step] at h
      split at h <;> cases h
      split <;> rfl
  | _ =>
      simp only [TrimCall.step] at h
      split at h <;> cases h
      rfl

theorem execStep_writes_no_input {pid : ℕ} {w w' : World} {p : Process} {a : ExecAction}
    {q : Option Process} (h : execStep pid w p a = some (w', q)) (job : InputJobPayload) :
    .sendInput job ∉ w.db.written w'.db := by
  have hquiet : ∀ db : Database, db.outbox.next ≤ w.db.outbox.next →
      .sendInput job ∉ w.db.written db := by
    intro db hnext
    rw [Database.written_of_next_le hnext]
    exact List.not_mem_nil
  cases execStep_cases h with
  | crash p => exact hquiet _ le_rfl
  | createSaga hstep => exact (CreateSaga.step_tx hstep).tx.writes_no_input job
  | createJob hstep => exact (CreateJob.step_tx hstep).tx.writes_no_input job
  | resumeJob hstep => exact (ResumeJob.step_tx hstep).tx.writes_no_input job
  | input hstep =>
      cases InputHandler.step_effect hstep with
      | persistIntent hstage hdb =>
          rw [World.db_emit, World.db_setDb]
          exact hquiet _ (congrArg SerialTable.next (admitTurn_outbox hdb)).le
      | _ => exact hquiet _ le_rfl
  | recovery hstep => exact (Recovery.step_tx hstep).tx.writes_no_input job
  | release => exact hquiet _ le_rfl
  | sweep p =>
      by_cases hturns : ∃ batch, p.kind = .turnResults batch
      · obtain ⟨batch, hkind⟩ := hturns
        unfold Sweep.step
        rw [hkind]
        exact hquiet _ le_rfl
      · by_cases hout : ∃ batch, p.kind = .outbox batch
        · obtain ⟨batch, hkind⟩ := hout
          unfold Sweep.step
          rw [hkind]
          exact hquiet _ le_rfl
        · exact (p.step_tx w (not_exists.mp hturns) (not_exists.mp hout)).tx.writes_no_input job
  | drift hstep => exact (DriftSweep.step_tx hstep).tx.writes_no_input job
  | relay hstep => exact hquiet _ (RelayBatch.step_next hstep).le
  | trim hstep => exact hquiet _ (TrimCall.step_next hstep).le
  | reply hstep => exact (replyStep_tx hstep).tx.writes_no_input job

theorem InputHandler.step_payload {pid : ℕ} {w w' : World} {p q : InputHandler} {a : InputAction}
    (h : p.step pid w a = some (w', some q)) : q.payload = p.payload := by
  cases a with
  | post | respond response =>
      simp only [step] at h
      obtain ⟨x, -, hx⟩ := Option.map_eq_some_iff.mp h
      cases hx
      rfl
  | lock collision | readSession | persistIntent =>
      simp only [step] at h
      split at h
      · split at h <;> cases h <;> rfl
      · cases h
  | _ =>
      simp only [step] at h
      split at h <;> cases h
      try rfl

/-- Only a relay becomes a relay. -/
theorem relay_of_execStep {pid : ℕ} {w w' : World} {p : Process} {a : ExecAction}
    {next : RelayBatch} (h : execStep pid w p a = some (w', some (.relay next))) :
    ∃ before action, p = .relay before ∧ before.step w action = some (w', some next) := by
  generalize hq : some (Process.relay next) = q at h
  cases execStep_cases h with
  | @relay before action _ q hstep =>
      obtain ⟨after, rfl, he⟩ := Option.map_eq_some_iff.mp hq.symm
      cases he
      exact ⟨before, action, rfl, hstep⟩
  | reply hstep =>
      obtain ⟨⟨s, after⟩, -, he⟩ := Option.map_eq_some_iff.mp hstep
      cases he
      cases hq
  | crash | release | sweep => cases hq
  | _ =>
      obtain ⟨after, -, he⟩ := Option.map_eq_some_iff.mp hq.symm
      cases he

/-- What the inputs in transit, in the hands of the relays and of the runners, and those whose
tool was started, were asked for meets `P`. -/
structure InputsFrom (P : InputJobPayload → Prop) (σ : SystemState) : Prop where
  transports : ∀ job, σ.shared.Transports (.sendInput job) → P job
  batches : ∀ pid p, σ.procs pid = some p → ∀ job, .sendInput job ∈ p.batch → P job
  handlers : ∀ pid h, σ.procs pid = some (.input h) → P h.payload
  started : ∀ pid sid version key token, .started pid sid version key token ∈ σ.shared.log →
    ∃ job, P job ∧ job.sessionId = sid ∧ job.idempotencyKey = key

theorem InputsFrom.mono {P Q : InputJobPayload → Prop} {σ : SystemState} (h : InputsFrom P σ)
    (hPQ : ∀ job, P job → Q job) : InputsFrom Q σ where
  transports job hjob := hPQ job (h.transports job hjob)
  batches pid p hp job hjob := hPQ job (h.batches pid p hp job hjob)
  handlers pid p hp := hPQ _ (h.handlers pid p hp)
  started pid sid version key token he := by
    obtain ⟨job, hjob, hsid⟩ := h.started pid sid version key token he
    exact ⟨job, hPQ job hjob, hsid⟩

namespace InputsFrom

variable {P : InputJobPayload → Prop} {σ τ : SystemState} {a : SystemAction}

theorem step_transports (h : InputsFrom P σ) (hstep : system.step σ a = some τ)
    (ha : ∀ key sid guildId text row threadId hostId, a = .env (.input key sid guildId text) →
      row.guildId = guildId → P (acceptedJob key sid row threadId hostId text))
    (job : InputJobPayload) (hjob : τ.shared.Transports (.sendInput job)) : P job := by
  have hmoved : ∀ batch, Moves batch σ.shared τ.shared → (.sendInput job ∈ batch → P job) →
      (.sendInput job ∈ σ.shared.db.written τ.shared.db → P job) → P job := by
    intro batch hmoves hbatch hwritten
    rcases hmoves.transports hjob with ⟨e, htrans, hsame⟩ | hmem | hmem
    · rcases hsame with heq | ⟨p, threadId, -, heq⟩
      · exact h.transports job (heq ▸ htrans)
      · cases heq
    · exact hbatch hmem
    · exact hwritten hmem
  rcases step_world hstep with ⟨e, rfl, he⟩ | ⟨n, rfl, hw⟩ | ⟨pid, b, p, q, rfl, hp, hb⟩
  · refine hmoved [] (envStep_moves he) (fun hmem ↦ by cases hmem) fun hmem ↦ ?_
    obtain ⟨key, sid, guildId, text, rfl, row, threadId, hostId, hguild, rfl⟩ :=
      envStep_writes_input he hmem
    exact ha key sid guildId text row threadId hostId rfl hguild
  · exact h.transports job (hw ▸ hjob)
  · exact hmoved p.batch (execStep_moves hb) (h.batches pid p hp job)
      fun hmem ↦ absurd hmem (execStep_writes_no_input hb job)

theorem step_batches (h : InputsFrom P σ) (hstep : system.step σ a = some τ) (pid : ℕ)
    (p : Process) (hp : τ.procs pid = some p) (job : InputJobPayload)
    (hjob : .sendInput job ∈ p.batch) : P job := by
  rcases ProcessPool.Machine.step_procs hstep hp with hold | ⟨n, rfl, -, hn⟩ | ⟨b, q, rfl, hq, hb⟩
  · exact h.batches pid p hold job hjob
  · have hspawned : spawnStep pid σ.shared n = some (τ.shared, p) := hn
    obtain ⟨-, hspawn⟩ := spawnStep_cases hspawned
    cases hspawn with
    | relay producer =>
        obtain ⟨⟨id, row⟩, hmem, he⟩ := List.mem_map.mp hjob
        have hrow := KeyedTable.mem_select_iff.mp (List.mem_of_mem_take hmem)
        exact h.transports job (.inl ⟨id, row, hrow.1, he⟩)
    | _ => cases hjob
  · cases p with
    | relay r =>
        obtain ⟨before, action, rfl, hrelay⟩ := relay_of_execStep hb
        exact h.batches pid _ hq job (RelayBatch.step_batch hrelay hjob)
    | _ => cases hjob

theorem step_handlers (h : InputsFrom P σ) (hstep : system.step σ a = some τ) (pid : ℕ)
    (p : InputHandler) (hp : τ.procs pid = some (.input p)) : P p.payload := by
  rcases ProcessPool.Machine.step_procs hstep hp with hold | ⟨n, rfl, -, hn⟩ | ⟨b, q, rfl, hq, hb⟩
  · exact h.handlers pid p hold
  · have hspawned : spawnStep pid σ.shared n = some (τ.shared, .input p) := hn
    obtain ⟨-, hspawn⟩ := spawnStep_cases hspawned
    cases hspawn with
    | inputJob hpending => exact h.transports _ (.inr ⟨_, _, mem_of_pendingJob? hpending⟩)
  · obtain ⟨before, action, rfl, rfl, hinput⟩ := WorkspacePaths.input_of_execStep hb
    rw [InputHandler.step_payload hinput]
    exact h.handlers pid before hq

theorem step_started (h : InputsFrom P σ) (hstep : system.step σ a = some τ) (pid : ℕ)
    (sid : SessionId) (version : ℕ) (key : Key) (token : Option Token)
    (he : .started pid sid version key token ∈ τ.shared.log) :
    ∃ job, P job ∧ job.sessionId = sid ∧ job.idempotencyKey = key := by
  obtain ⟨new, hlog, -, hnew⟩ := step_emits hstep
  rw [hlog] at he
  rcases List.mem_append.mp he with hmem | hold
  · rcases hnew _ hmem with ⟨s, v, heq⟩ | ⟨q, b, p, -, hp, hemitted⟩
    · cases heq
    · obtain ⟨-, handler, row, rfl, -, hsid, hkey, -, -⟩ := hemitted
      exact ⟨handler.payload, h.handlers q handler hp, hsid, hkey⟩
  · exact h.started pid sid version key token hold

theorem step (h : InputsFrom P σ) (hstep : system.step σ a = some τ)
    (ha : ∀ key sid guildId text row threadId hostId, a = .env (.input key sid guildId text) →
      row.guildId = guildId → P (acceptedJob key sid row threadId hostId text)) :
    InputsFrom P τ :=
  ⟨h.step_transports hstep ha, h.step_batches hstep, h.step_handlers hstep, h.step_started hstep⟩

end InputsFrom

theorem FreshWorld.sessionsFrom {w : World} (h : FreshWorld w) (P : CreateRequest → Prop) :
    SessionsFrom P (.start w) := by
  obtain ⟨settings, redactor, rfl⟩ := h
  exact ⟨fun sid row hrow ↦ (by cases hrow), fun pid p hp ↦ (by cases hp)⟩

end Discode
