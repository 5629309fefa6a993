import Discode.History
import Discode.JobsInTransit

/-!
# The jobs of accepted turns

From the commit that accepts a turn, its job is in an unpublished row of the outbox, and then
an unread or pending entry of the stream of its host.  Each step keeps it there, except that
a handler acknowledges it once nobody will work on the turn again.
-/

set_option autoImplicit false

namespace Discode

open ProcessPool (Machine)

/-- No handler will work on the turn again. -/
def Done (db : Database) (key : Key) : Prop :=
  ∃ t, db.turn? key = some t ∧ (t.status.isSettled = true ∨
    ∃ c, db.core? t.sessionId = some c ∧ c.LeftAt t.lifecycleVersion)

/-- The job is in a row of the outbox that is still to be published. -/
def Database.Queues (db : Database) (p : InputJobPayload) : Prop :=
  ∃ id row, db.outbox.get? id = some row ∧ row.publishedAt = none ∧ row.envelope = .sendInput p

/-- The job is an unread or pending entry of the stream of its host. -/
def World.Offers (w : World) (p : InputJobPayload) : Prop :=
  (w.streams (.inputJobs p.hostId)).Outstanding () (.sendInput p)

/-- Jobs are written for the stream of their host. -/
def Database.Routes (db : Database) : Prop :=
  ∀ id row p, db.outbox.get? id = some row → row.envelope = .sendInput p →
    row.streamKey = .inputJobs p.hostId

theorem Done.advance {w w' : World} {key : Key} (h : Done w.db key) (hw : Advance w w') :
    Done w'.db key := by
  obtain ⟨t, ht, hdone⟩ := h
  obtain ⟨t', ht', hadv⟩ := hw.turn key t ht
  refine ⟨t', ht', ?_⟩
  rw [hadv.sessionId, hadv.lifecycleVersion]
  rcases hdone with hs | ⟨c, hc, hleft⟩
  · exact .inl (hadv.settled hs)
  · have hstep := hc ▸ hw.core t.sessionId
    obtain ⟨c', hc'⟩ := hstep.exists_of_some
    rw [hc'] at hstep
    exact .inr ⟨c', hc', hstep.leftAt hleft⟩

/-- What a handler knows before it acknowledges a job. -/
theorem Settled.done {db : Database} {p : InputJobPayload} {v : ℕ} (h : Settled db p v)
    (hjob : AcceptedJob db p v) : Done db p.idempotencyKey := by
  obtain ⟨t, ht, hsid, hv⟩ := hjob.turn
  rcases h with ⟨t', ht', hs⟩ | hleft
  · exact ⟨t', ht', .inl hs⟩
  · exact ⟨t, ht, .inr (by rw [hsid, hv]; exact hleft)⟩

/-! ## What a step does to the jobs -/

structure KeepsJobs (w w' : World) : Prop where
  grows : OutboxGrows w.db w'.db
  keeps : OutboxKeeps w.db w'.db
  streams : ∀ key, (w.streams key).Grows (w'.streams key)
  routes : w.db.Routes → w'.db.Routes
  queues : ∀ p, w.db.Queues p → w'.db.Queues p ∨ w'.Offers p ∨ Done w'.db p.idempotencyKey
  offers : ∀ p, w.Offers p → w'.Offers p ∨ Done w'.db p.idempotencyKey

namespace KeepsJobs

variable {w w' : World}

theorem of_tx {W : Writer → Prop} (h : TxStep W w w') : KeepsJobs w w' where
  grows := h.tx.outbox
  keeps := h.tx.keeps
  streams key := h.streams ▸ .refl _
  routes hroutes id row p hrow he :=
    hroutes id row p ((h.tx.inputJobs id row (by rw [he]; rfl)).mp hrow) he
  queues p hq := by
    obtain ⟨id, row, hrow, hpub, he⟩ := hq
    exact .inl ⟨id, row, (h.tx.inputJobs id row (by rw [he]; rfl)).mpr hrow, hpub, he⟩
  offers p hp := .inl (by rw [World.Offers, h.streams]; exact hp)

theorem of_same (houtbox : w'.db.outbox = w.db.outbox) (hstreams : w'.streams = w.streams) :
    KeepsJobs w w' where
  grows := .of_eq houtbox
  keeps := .of_eq houtbox
  streams key := hstreams ▸ .refl _
  routes hroutes id row p hrow := hroutes id row p (houtbox ▸ hrow)
  queues p hq := by
    rw [Database.Queues, houtbox]
    exact .inl hq
  offers p hp := .inl (by rw [World.Offers, hstreams]; exact hp)

/-- An operation on one stream. -/
theorem setStream {key : StreamKey} {s : JobStream} (hgrows : (w.streams key).Grows s)
    (hs : ∀ p, key = .inputJobs p.hostId →
      (w.streams key).Outstanding () (.sendInput p) →
      s.Outstanding () (.sendInput p) ∨ Done w.db p.idempotencyKey) :
    KeepsJobs w (w.setStream key s) where
  grows := .of_eq rfl
  keeps := .of_eq rfl
  streams key' := by
    rw [World.streams_setStream]
    split
    · rename_i hkey
      exact hkey ▸ hgrows
    · exact .refl _
  routes hroutes := hroutes
  queues p hq := .inl hq
  offers p hp := by
    rw [World.Offers, World.streams_setStream]
    split
    · rename_i hkey
      exact hs p hkey.symm (hkey ▸ hp)
    · exact .inl hp

/-- An `UPDATE redis_outbox` that keeps the envelopes and publishes no job that is not
offered or done. -/
theorem mapOutbox {g : ℕ → OutboxRow → OutboxRow} {db : Database}
    (hdb : db = { w.db with outbox := w.db.outbox.mapRows g })
    (hg : ∀ id (row : OutboxRow), (g id row).envelope = row.envelope ∧
      (g id row).streamKey = row.streamKey ∧
      (row.publishedAt.isSome → (g id row).publishedAt.isSome))
    (hpub : ∀ id row p, w.db.outbox.get? id = some row → row.envelope = .sendInput p →
      row.publishedAt = none →
      (g id row).publishedAt = none ∨ w.Offers p ∨ Done w.db p.idempotencyKey) :
    KeepsJobs w (w.setDb db) := by
  subst hdb
  have hget : ∀ id, (w.db.outbox.mapRows g).get? id = (w.db.outbox.get? id).map (g id) := fun id ↦
    KeyedTable.get?_mapRows w.db.outbox.toKeyedTable g id
  refine ⟨⟨le_rfl, fun id _ row' hrow' ↦ ?_⟩, ?_, fun _ ↦ .refl _,
    fun hroutes id row' p hrow' he ↦ ?_, fun p hq ↦ ?_, fun p hp ↦ .inl hp⟩
  · rw [World.db_setDb, hget, Option.map_eq_some_iff] at hrow'
    obtain ⟨row, hrow, rfl⟩ := hrow'
    exact ⟨row, hrow, (hg id row).2.2⟩
  · exact (OutboxKeeps.of_eq rfl).mapRows fun id row ↦ .inl (hg id row).1
  · rw [World.db_setDb, hget, Option.map_eq_some_iff] at hrow'
    obtain ⟨row, hrow, rfl⟩ := hrow'
    rw [(hg id row).2.1]
    exact hroutes id row p hrow ((hg id row).1.symm.trans he)
  · obtain ⟨id, row, hrow, hnone, he⟩ := hq
    rcases hpub id row p hrow he hnone with hnone' | hp
    · refine .inl ⟨id, g id row, ?_, hnone', (hg id row).1.trans he⟩
      rw [World.db_setDb, hget, hrow]
      rfl
    · exact .inr hp

end KeepsJobs

/-! ## What the processes know -/

/-- A drain knows the rows it locked, and that what it published is offered or done. -/
structure RelayBatch.Tracks (b : RelayBatch) (w : World) : Prop where
  source : ∀ id row, (id, row) ∈ b.rows ∨ (id, row) ∈ b.published → id < w.db.outbox.next ∧
    ∀ row', w.db.outbox.get? id = some row' → row.envelope.SameJob row'.envelope
  routes : ∀ id row p, (id, row) ∈ b.rows → row.envelope = .sendInput p →
    row.streamKey = .inputJobs p.hostId
  published : ∀ id row p, (id, row) ∈ b.published → row.envelope = .sendInput p →
    w.Offers p ∨ Done w.db p.idempotencyKey

def TrimCall.Tracks (t : TrimCall) (w : World) : Prop :=
  match t.stage with
  | .start => True
  | .groupRead floor => floor ≤ ((w.streams t.stream).groups ()).lastDelivered
  | .pendingRead floor => (w.streams t.stream).Acknowledged () floor

def Process.Tracks (p : Process) (w : World) : Prop :=
  match p with
  | .input h => h.entry ≤ (w.streams (.inputJobs h.hostId)).lastId ∧
      ∀ e, (h.entry, e) ∈ (w.streams (.inputJobs h.hostId)).entries → e = .sendInput h.payload
  | .sweep s => OutboxGrows s.snapshot w.db
  | .relay b => b.Tracks w
  | .trim t => t.Tracks w
  | _ => True

theorem InputHandler.tracks_grows {p : InputHandler} {w w' : World} (stage : InputStage)
    (h : Process.Tracks (.input p) w)
    (hgrows : (w.streams (.inputJobs p.hostId)).Grows (w'.streams (.inputJobs p.hostId))) :
    Process.Tracks (.input (p.at_ stage)) w' := by
  refine ⟨h.1.trans hgrows.lastId, fun e he ↦ ?_⟩
  rcases hgrows.entries _ he with hold | hnew
  · exact h.2 e hold
  · exact absurd h.1 (not_le.mpr hnew)

theorem Process.Tracks.frame {p : Process} {w w' : World} (h : p.Tracks w)
    (hadv : Advance w w') (hkeeps : KeepsJobs w w') : p.Tracks w' := by
  cases p with
  | input i =>
      exact InputHandler.tracks_grows i.stage h (hkeeps.streams _)
  | sweep s => exact OutboxGrows.trans h hkeeps.grows
  | relay b =>
      refine ⟨fun id row hmem ↦ ?_, h.routes, fun id row job hmem he ↦ ?_⟩
      · obtain ⟨hid, hsame⟩ := h.source id row hmem
        refine ⟨hid.trans_le hkeeps.grows.next, fun row'' hrow'' ↦ ?_⟩
        obtain ⟨row', hrow', hsame'⟩ := hkeeps.keeps id hid row'' hrow''
        exact (hsame row' hrow').trans hsame'
      · rcases h.published id row job hmem he with hoffers | hdone
        · exact hkeeps.offers job hoffers
        · exact .inr (hdone.advance hadv)
  | trim t =>
      have hgrows := hkeeps.streams t.stream
      unfold Process.Tracks TrimCall.Tracks at h ⊢
      dsimp only at h ⊢
      cases hstage : t.stage with
      | start => trivial
      | groupRead floor =>
          rw [hstage] at h
          exact h.trans (hgrows.delivered ())
      | pendingRead floor =>
          rw [hstage] at h
          exact h.grows hgrows
  | _ => trivial

/-! ## The steps -/

theorem Accepted.keepsJobs {key : Key} {sid : SessionId} {row : SessionRow}
    {job : InputJobPayload} {w : World} {db' : Database} (h : Accepted key sid row job w.db db')
    (hkeeps : OutboxKeeps w.db db') : KeepsJobs w (w.setDb db') := by
  have hold : ∀ id < w.db.outbox.next, db'.outbox.get? id = w.db.outbox.get? id := by
    intro id hid
    rw [h.outbox, if_neg hid.ne]
  refine ⟨⟨?_, ?_⟩, hkeeps, fun _ ↦ .refl _, ?_, ?_, fun _ hp ↦ .inl hp⟩
  · rw [World.db_setDb, h.outboxNext]
    exact Nat.le_succ _
  · intro id hid row' hrow'
    exact ⟨row', hold id hid ▸ hrow', fun hs ↦ hs⟩
  · intro hroutes id row' p hrow' he
    rw [World.db_setDb, h.outbox] at hrow'
    split at hrow'
    · cases hrow'
      cases he
      rfl
    · exact hroutes id row' p hrow' he
  · rintro p ⟨id, row', hrow', hpub, he⟩
    have hid : id < w.db.outbox.next := SerialTable.get?_lt_next hrow'
    exact .inl ⟨id, row', (hold id hid).trans hrow', hpub, he⟩

theorem envStep_keepsJobs {w w' : World} {e : EnvAction} (h : envStep w e = some w') :
    KeepsJobs w w' := by
  cases envStep_cases h with
  | tx htx => exact .of_tx htx
  | input hsaga =>
      obtain ⟨row, threadId, hostId, -, -, -, -, haccept⟩ := runInputSaga_ok hsaga
      exact (acceptInput_eq_some haccept).keepsJobs (runInputSaga_keeps hsaga)
  | readNew stream count =>
      exact .setStream (ConsumerStream.grows_readNew _ _ _) fun _ _ hout ↦
        .inl (hout.readNew () count)
  | retire stream entry hne =>
      exact .setStream (ConsumerStream.grows_ack _ _ _) fun p hkey _ ↦ absurd hkey (hne p.hostId)
  | retryOutbox id =>
      refine .mapOutbox rfl (fun id' row ↦ ?_) fun id' row p _ _ hnone ↦ .inl ?_
      · split <;> exact ⟨rfl, rfl, fun hs ↦ hs⟩
      · split <;> exact hnone

theorem RelayBatch.step_keepsJobs {w w' : World} {b : RelayBatch} {q : Option RelayBatch}
    {a : RelayAction} (hb : b.Tracks w) (h : b.step w a = some (w', q)) :
    KeepsJobs w w' ∧ ∀ b', q = some b' → b'.Tracks w' := by
  cases a with
  | xadd =>
      simp only [step] at h
      split at h
      · cases h
      · rename_i id row rest hrows
        cases h
        have hkeeps : KeepsJobs w (w.setStream row.streamKey
            (JobStream.xadd (w.streams row.streamKey) row.envelope)) :=
          .setStream (ConsumerStream.grows_add _ _ _) fun p _ hout ↦ .inl (hout.add _ _)
        refine ⟨hkeeps, fun b' hb' ↦ ?_⟩
        cases hb'
        have hhead : (id, row) ∈ b.rows := hrows ▸ List.mem_cons_self
        have htail : ∀ e ∈ rest, e ∈ b.rows := fun e he ↦ hrows ▸ List.mem_cons_of_mem _ he
        constructor
        · rintro id' row' (hmem | hmem)
          · exact hb.source id' row' (.inl (htail _ hmem))
          · rcases List.mem_cons.mp hmem with heq | hmem
            · cases heq
              exact hb.source id row (.inl hhead)
            · exact hb.source id' row' (.inr hmem)
        · exact fun id' row' p hmem he ↦ hb.routes id' row' p (htail _ hmem) he
        · intro id' row' p hmem he
          rcases List.mem_cons.mp hmem with heq | hmem
          · -- The entry just added.
            cases heq
            left
            rw [World.Offers, ← hb.routes id row p hhead he, World.streams_setStream, if_pos rfl,
              ← he]
            exact ConsumerStream.outstanding_add_self _ () _ _
          · rcases hb.published id' row' p hmem he with hoffers | hdone
            · exact hkeeps.offers p hoffers
            · exact .inr hdone
  | xaddRaises =>
      simp only [step] at h
      split at h
      · cases h
      · rename_i id row rest hrows
        cases h
        refine ⟨.of_same rfl rfl, fun b' hb' ↦ ?_⟩
        cases hb'
        have htail : ∀ e ∈ rest, e ∈ b.rows := fun e he ↦ hrows ▸ List.mem_cons_of_mem _ he
        constructor
        · exact fun id' row' hmem ↦ hb.source id' row' (hmem.imp_left (htail _))
        · exact fun id' row' p hmem he ↦ hb.routes id' row' p (htail _ hmem) he
        · exact hb.published
  | redisUnavailable =>
      cases h
      refine ⟨.of_same rfl rfl, fun b' hb' ↦ ?_⟩
      cases hb'
      exact ⟨fun id row hmem ↦ hb.source id row (.inr (hmem.resolve_left fun hm ↦ by cases hm)),
        (fun _ _ _ hm ↦ by cases hm), hb.published⟩
  | commit =>
      simp only [step] at h
      split at h <;> cases h
      refine ⟨.mapOutbox rfl (fun id row ↦ ?_) fun id row p hrow he hnone ↦ ?_,
        fun _ hb' ↦ (by cases hb')⟩
      · split
        · exact ⟨rfl, rfl, fun _ ↦ rfl⟩
        · split
          · exact ⟨rfl, rfl, fun hs ↦ hs⟩
          · exact ⟨rfl, rfl, fun hs ↦ hs⟩
      · by_cases hpub : (b.published.map Prod.fst).contains id = true
        · right
          obtain ⟨⟨id', row'⟩, hmem, rfl⟩ := List.mem_map.mp (List.contains_iff_mem.mp hpub)
          have hsame := (hb.source id' row' (.inr hmem)).2 row hrow
          refine hb.published id' row' p hmem ?_
          rcases hsame with heq | ⟨_, _, -, heq⟩
          · exact heq.symm.trans he
          · rw [he] at heq
            cases heq
        · left
          rw [if_neg hpub]
          split <;> exact hnone

/-- A step of a handler leads to another program point of the same job. -/
theorem InputHandler.step_next {pid : ℕ} {w w' : World} {p r : InputHandler} {a : InputAction}
    (h : p.step pid w a = some (w', some r)) : ∃ stage, r = p.at_ stage := by
  cases a with
  | post =>
      obtain ⟨⟨version, replyKey, text, stage⟩, -, he⟩ := Option.map_eq_some_iff.mp h
      cases he
      exact ⟨stage, rfl⟩
  | respond response =>
      obtain ⟨stage, -, he⟩ := Option.map_eq_some_iff.mp h
      cases he
      exact ⟨stage, rfl⟩
  | lock collision | readSession =>
      simp only [step] at h
      split at h
      · split at h <;> cases h <;> exact ⟨_, rfl⟩
      · cases h
  | persistIntent =>
      simp only [step] at h
      split at h
      · split at h <;> cases h <;> exact ⟨_, rfl⟩
      · cases h
  | acknowledge =>
      simp only [step] at h
      split at h <;> cases h
  | _ =>
      simp only [step] at h
      split at h <;> cases h
      exact ⟨_, rfl⟩

/-- A handler acknowledges a job only when it is done. -/
theorem InputHandler.step_keepsJobs {pid : ℕ} {w w' : World} {p : InputHandler}
    {q : Option InputHandler} {a : InputAction} (hok : p.Ok pid w)
    (hp : Process.Tracks (.input p) w) (h : p.step pid w a = some (w', q)) : KeepsJobs w w' := by
  cases InputHandler.step_effect h with
  | persistIntent hstage hdb => exact .of_same (admitTurn_outbox hdb) rfl
  | acknowledge hstage hne =>
      refine .setStream (ConsumerStream.grows_ack _ _ _) fun job hkey hout ↦ ?_
      rcases hout.ack () p.entry with hout | hmem
      · exact .inl hout
      · right
        obtain ⟨v, hat⟩ := hok
        have hsettled := hat.stage
        rw [hstage] at hsettled
        cases hp.2 _ hmem
        exact (hsettled hne).done hat.job
  | _ => exact .of_same rfl rfl

theorem Sweep.step_keepsJobs {w : World} {p : Sweep} (hp : Process.Tracks (.sweep p) w) :
    KeepsJobs w (p.step w) := by
  by_cases hturns : ∃ batch, p.kind = .turnResults batch
  · obtain ⟨batch, hkind⟩ := hturns
    unfold Sweep.step
    rw [hkind]
    exact .of_same rfl rfl
  · by_cases hout : ∃ batch, p.kind = .outbox batch
    · obtain ⟨batch, hkind⟩ := hout
      have hstep : p.step w = w.setDb (sweepOutbox p.settings batch p.snapshot w.db) := by
        unfold Sweep.step
        rw [hkind]
        rfl
      have hold : ∀ id row, (p.step w).db.outbox.get? id = some row →
          w.db.outbox.get? id = some row := by
        intro id row hrow
        rw [hstep, World.db_setDb, get?_sweepOutbox, Option.filter_eq_some_iff] at hrow
        exact hrow.1
      refine ⟨⟨?_, ?_⟩, ?_, ?_, ?_, ?_, fun _ ↦ .inl⟩
      · rw [hstep]
        exact le_rfl
      · exact fun id _ row hrow ↦ ⟨row, hold id row hrow, fun hs ↦ hs⟩
      · exact fun id _ row hrow ↦ ⟨row, hold id row hrow, .inl rfl⟩
      · exact fun _ ↦ .refl _
      · exact fun hroutes id row job hrow ↦ hroutes id row job (hold id row hrow)
      · rintro job ⟨id, row, hrow, hnone, he⟩
        refine .inl ⟨id, row, ?_, hnone, he⟩
        rw [hstep]
        exact hp.kept_of_unpublished p.settings batch hrow hnone
    · exact .of_tx (p.step_tx w (not_exists.mp hturns) (not_exists.mp hout))

/-- A call trims below what its group has acknowledged. -/
theorem TrimCall.step_keepsJobs {w w' : World} {p : TrimCall} {q : Option TrimCall}
    {a : TrimAction} (hp : p.Tracks w) (h : p.step w a = some (w', q)) :
    KeepsJobs w w' ∧ ∀ r, q = some r → r.Tracks w' := by
  cases a with
  | readGroup floor =>
      simp only [step] at h
      split at h <;> cases h
      refine ⟨.of_same rfl rfl, fun r hr ↦ ?_⟩
      cases hr
      exact min_le_right _ _
  | readPending =>
      simp only [step] at h
      split at h <;> cases h
      rename_i floor hstage
      refine ⟨.of_same rfl rfl, fun r hr ↦ ?_⟩
      cases hr
      unfold Tracks at hp ⊢
      rw [hstage] at hp
      exact ConsumerStream.acknowledged_min hp
  | trim =>
      simp only [step] at h
      split at h <;> cases h
      rename_i floor hstage
      refine ⟨?_, fun _ hr ↦ (by cases hr)⟩
      unfold Tracks at hp
      rw [hstage] at hp
      split
      · exact .of_same rfl rfl
      · exact .setStream (ConsumerStream.grows_trim _ _) fun job _ hout ↦ .inl (hout.trim hp)

theorem execStep_keepsJobs {pid : ℕ} {w w' : World} {p : Process} {a : ExecAction}
    {q : Option Process} (hok : p.Ok pid w) (hp : p.Tracks w)
    (h : execStep pid w p a = some (w', q)) : KeepsJobs w w' := by
  cases execStep_cases h with
  | crash p => exact .of_same rfl rfl
  | createSaga hstep => exact .of_tx (CreateSaga.step_tx hstep)
  | createJob hstep => exact .of_tx (CreateJob.step_tx hstep)
  | resumeJob hstep => exact .of_tx (ResumeJob.step_tx hstep)
  | input hstep => exact InputHandler.step_keepsJobs hok hp hstep
  | recovery hstep => exact .of_tx (Recovery.step_tx hstep)
  | release => exact .of_same rfl rfl
  | sweep p => exact Sweep.step_keepsJobs hp
  | drift hstep => exact .of_tx (DriftSweep.step_tx hstep)
  | relay hstep => exact (RelayBatch.step_keepsJobs hp hstep).1
  | trim hstep => exact (TrimCall.step_keepsJobs hp hstep).1
  | reply hstep => exact .of_tx (replyStep_tx hstep)

theorem execStep_tracks {pid : ℕ} {w w' : World} {p r : Process} {a : ExecAction}
    {q : Option Process} (hkeeps : KeepsJobs w w') (hp : p.Tracks w)
    (h : execStep pid w p a = some (w', q)) (hr : q = some r) : r.Tracks w' := by
  cases execStep_cases h with
  | crash p => cases hr
  | @input p a _ q hstep =>
      obtain ⟨i, rfl, rfl⟩ := Option.map_eq_some_iff.mp hr
      obtain ⟨stage, rfl⟩ := InputHandler.step_next hstep
      exact InputHandler.tracks_grows _ hp (hkeeps.streams _)
  | release hrelease =>
      cases hr
      rw [(Sweep.release_eq_some hrelease).2]
      exact hp
  | sweep p => cases hr
  | relay hstep =>
      obtain ⟨b, rfl, rfl⟩ := Option.map_eq_some_iff.mp hr
      exact (RelayBatch.step_keepsJobs hp hstep).2 b rfl
  | trim hstep =>
      obtain ⟨t, rfl, rfl⟩ := Option.map_eq_some_iff.mp hr
      exact (TrimCall.step_keepsJobs hp hstep).2 t rfl
  | reply hstep =>
      obtain ⟨⟨s, next⟩, -, he⟩ := Option.map_eq_some_iff.mp hstep
      cases he
      cases hr
      trivial
  | _ =>
      obtain ⟨r', -, rfl⟩ := Option.map_eq_some_iff.mp hr
      trivial

/-- A new process tracks what it read. -/
theorem spawnStep_tracks {pid : ℕ} {w w' : World} {n : SpawnAction} {p : Process}
    (h : spawnStep pid w n = some (w', p)) (hroutes : w.db.Routes) : p.Tracks w := by
  cases (spawnStep_cases h).2 with
  | @inputJob hostId entry job hjob =>
      have hmem := mem_of_pendingJob? hjob
      exact ⟨(w.streams (.inputJobs hostId)).bounded _ hmem, fun e he ↦
        ConsumerStream.eq_of_mem he hmem⟩
  | sweep kind => exact OutboxGrows.refl _
  | relay producer =>
      have hmem : ∀ id row, (id, row) ∈ drainRows w.settings producer w.db →
          w.db.outbox.get? id = some row := fun id row hrow ↦
        (KeyedTable.mem_select_iff.mp (List.mem_of_mem_take hrow)).1
      constructor
      · rintro id row (hrow | hrow)
        · refine ⟨SerialTable.get?_lt_next (hmem id row hrow), fun row' hrow' ↦ .inl ?_⟩
          rw [hmem id row hrow] at hrow'
          exact congrArg OutboxRow.envelope (Option.some.inj hrow').symm
        · cases hrow
      · exact fun id row p hrow he ↦ hroutes id row p (hmem id row hrow) he
      · exact fun id row p hrow ↦ nomatch hrow
  | _ => trivial

/-! ## Every reachable state -/

/-- The job of the turn is on its way. -/
def World.Waits (w : World) (key : Key) : Prop :=
  ∃ p, p.idempotencyKey = key ∧ (w.db.Queues p ∨ w.Offers p)

structure RetentionInv (w : World) : Prop where
  routes : w.db.Routes
  turns : ∀ key t, w.db.turn? key = some t → w.Waits key ∨ Done w.db key

theorem RetentionInv.step {w w' : World} (h : RetentionInv w) (hadv : Advance w w')
    (hkeeps : KeepsJobs w w')
    (hnew : ∀ key t, w'.db.turn? key = some t → w.db.turn? key = none → w'.Waits key) :
    RetentionInv w' := by
  refine ⟨hkeeps.routes h.routes, fun key t ht ↦ ?_⟩
  cases hold : w.db.turn? key with
  | none => exact .inl (hnew key t ht hold)
  | some t₀ =>
      rcases h.turns key t₀ hold with ⟨p, rfl, hp⟩ | hdone
      · rcases hp with hp | hp
        · rcases hkeeps.queues p hp with hq | ho | hd
          · exact .inl ⟨p, rfl, .inl hq⟩
          · exact .inl ⟨p, rfl, .inr ho⟩
          · exact .inr hd
        · rcases hkeeps.offers p hp with ho | hd
          · exact .inl ⟨p, rfl, .inr ho⟩
          · exact .inr hd
      · exact .inr (hdone.advance hadv)

/-- An accepted turn is new, and its job is queued with it. -/
theorem envStep_waits {w w' : World} {e : EnvAction} (h : envStep w e = some w') (key : Key)
    (t : InputTurn) (ht : w'.db.turn? key = some t) (hnone : w.db.turn? key = none) :
    w'.Waits key := by
  by_cases hin : ∀ key sid guildId text, e ≠ .input key sid guildId text
  · rw [(envStep_quiet h hin).turn? key, hnone] at ht
    cases ht
  · simp only [not_forall, not_not] at hin
    obtain ⟨key', sid, guildId, text, rfl⟩ := hin
    obtain ⟨row, job, db', rfl, -, -, hacc, -, hkey, -⟩ := inputSaga_accepted h
    have heq : key = key' := by
      by_contra hne
      rw [World.db_setDb, hacc.turn, if_neg hne, hnone] at ht
      cases ht
    refine ⟨job, hkey.trans heq.symm, .inl ⟨w.db.outbox.next,
      .write w.db.now .bot (.inputJobs job.hostId) (.sendInput job), ?_, rfl, rfl⟩⟩
    rw [World.db_setDb, hacc.outbox, if_pos rfl]

theorem retention_proof : system.Proof (fun _ _ ↦ True) (fun w ↦ TurnInv w ∧ RetentionInv w)
    (fun pid p w ↦ p.Ok pid w ∧ p.Tracks w) := by
  apply system_proof.and
  · intro σ e w h hinv _ hs
    have hkeeps := envStep_keepsJobs hs
    have hadv := envStep_advance hs
    exact ⟨hinv.step hadv hkeeps (envStep_waits hs), fun pid p _ hp ↦ hp.frame hadv hkeeps⟩
  · intro σ n w p h hinv _ hs
    obtain rfl := system_spawn hs
    have hspawn : spawnStep σ.next σ.shared n = some (σ.shared, p) := hs
    exact ⟨hinv, spawnStep_tracks hspawn hinv.routes, fun _ _ _ _ hr ↦ hr⟩
  · intro σ pid p a w q h hinv _ _ hok hp hs
    have hstep := execStep_ok h.inv hok hs
    have hkeeps := execStep_keepsJobs hok hp hs
    refine ⟨hinv.step hstep.advance hkeeps fun key t ht hnone ↦ ?_,
      fun r hr ↦ execStep_tracks hkeeps hp hs hr, fun _ _ _ _ hr ↦ hr.frame hstep.advance hkeeps⟩
    cases (hstep.absent key hnone).symm.trans ht

theorem FreshWorld.retentionInv {w : World} (h : FreshWorld w) : RetentionInv w := by
  obtain ⟨settings, redactor, rfl⟩ := h
  constructor
  · intro id row p hrow
    cases hrow
  · intro key t ht
    cases ht

theorem retention_annotated {σ : SystemState} (h : SystemReachable σ) :
    ProcessPool.Machine.Annotated (fun w ↦ TurnInv w ∧ RetentionInv w)
      (fun pid p w ↦ p.Ok pid w ∧ p.Tracks w) σ :=
  retention_proof.annotated (fun _ hw ↦ ⟨hw.turnInv, hw.retentionInv⟩) h

theorem World.Carries.of_waiting {w : World} {p : InputJobPayload}
    (h : w.db.Queues p ∨ w.Offers p) : w.Carries p := by
  rcases h with ⟨id, row, hrow, -, he⟩ | ⟨id, hmem, -⟩
  · exact .inl ⟨id, row, hrow, he⟩
  · exact .inr ⟨_, id, hmem⟩

/-- A session that ran at a version and left it never runs at it again. -/
theorem Done.of_left {σ τ : SystemState} (h : SystemReachable σ) (hr : system.Reaches σ τ)
    {sid : SessionId} {v : ℕ} {c : SessionCore} (hc : σ.shared.db.core? sid = some c)
    (hleft : c.LeftAt v) {row : SessionRow} (hrow : τ.shared.db.session? sid = some row) :
    ¬ (row.lifecycleVersion = v ∧ row.status.isLive = true) := by
  obtain ⟨c', hc', -, hleft', -⟩ := (reaches_later h hr).session sid c hc
  have hcore : τ.shared.db.core? sid = some row.core := by
    rw [Database.core?, hrow]
    rfl
  cases hc'.symm.trans hcore
  exact (hleft' v hleft).not_liveAt

/-- The job of a turn stays in the outbox or the stream of its host as long as a handler has
to work on the turn, and a handler gives it back unless nobody has to any more. -/
theorem accepted_input_is_kept {σ : SystemState} (h : SystemReachable σ) :
    (∀ key t row, σ.shared.db.turn? key = some t →
      σ.shared.db.session? t.sessionId = some row →
      row.lifecycleVersion = t.lifecycleVersion → row.status.isLive = true →
      t.status = .queued ∨ t.status = .executing ∨ t.status = .completed →
      ∃ p, p.idempotencyKey = key ∧ p.sessionId = t.sessionId ∧
        p.lifecycleVersion = some t.lifecycleVersion ∧ row.hostId = some p.hostId ∧
        (σ.shared.db.Queues p ∨ σ.shared.Offers p)) ∧
    ∀ pid p outcome, σ.procs pid = some (.input p) → p.stage = .returned outcome →
      outcome ≠ .deferred →
      ∃ t, σ.shared.db.turn? p.key = some t ∧
        ((t.status.isTerminal = true ∨ t.status = .uncertain) ∨
          ∀ τ, system.Reaches σ τ → ∀ row, τ.shared.db.session? t.sessionId = some row →
            ¬ (row.lifecycleVersion = t.lifecycleVersion ∧ row.status.isLive = true)) := by
  have hσ := retention_annotated h
  constructor
  · intro key t row ht hrow hversion hlive hstatus
    have hcore : σ.shared.db.core? t.sessionId = some row.core := by
      rw [Database.core?, hrow]
      rfl
    rcases hσ.inv.2.turns key t ht with ⟨p, rfl, hp⟩ | ⟨t', ht', hdone⟩
    · obtain ⟨v, hjob⟩ := hσ.inv.1.jobs p (.of_waiting hp)
      obtain ⟨t', ht', hsid, hv⟩ := hjob.turn
      cases ht.symm.trans ht'
      obtain ⟨c, hc, -, hhost, -⟩ := hjob.session
      rw [← hsid] at hc
      cases hcore.symm.trans hc
      exact ⟨p, rfl, hsid.symm, hv ▸ hjob.version, hhost, hp⟩
    · exfalso
      cases ht.symm.trans ht'
      rcases hdone with hsettled | ⟨c, hc, hleft⟩
      · rcases hstatus with hs | hs | hs <;> rw [hs] at hsettled <;> cases hsettled
      · cases hcore.symm.trans hc
        exact hleft.not_liveAt ⟨hversion, hlive⟩
  · intro pid p outcome hp hstage hne
    obtain ⟨v, hok⟩ := (hσ.assert pid _ hp).1
    have hsettled := hok.stage
    rw [hstage] at hsettled
    obtain ⟨t, ht, hdone⟩ := (hsettled hne).done hok.job
    refine ⟨t, ht, ?_⟩
    rcases hdone with hs | ⟨c, hc, hleft⟩
    · exact .inl (of_decide_eq_true hs)
    · exact .inr fun τ hr row hrow ↦ Done.of_left h hr hc hleft hrow

def Process.input? : Process → Option InputHandler
  | .input p => some p
  | _ => none

theorem Process.input?_eq_some {q : Process} {p : InputHandler} (h : q.input? = some p) :
    q = .input p := by
  cases q with
  | input r => exact congrArg Process.input (Option.some.inj h)
  | _ => cases h

/-- One turn is answered but not acknowledged yet, and the next one is accepted. -/
def keptRun : List SystemAction :=
  openRun 0 1 7 (pyStr "demo") 1 none none ++ inputRun 3 100 1 1 ++ admitRun 4 ++
    (answerRun 4 (pyStr "done") none).dropLast ++ [.env (.input 200 1 1 (pyStr "hello"))]

def keptState : SystemState := (system.run (.start deployment) keptRun).get (by decide +kernel)

theorem accepted_input_is_kept_queued :
    (∃ p, p.idempotencyKey = 200 ∧ p.hostId = 5 ∧
      (keptState.shared.db.Queues p ∨ keptState.shared.Offers p)) ∧
    ∃ t, keptState.shared.db.turn? 100 = some t ∧
      ((t.status.isTerminal = true ∨ t.status = .uncertain) ∨
        ∀ τ, system.Reaches keptState τ → ∀ row, τ.shared.db.session? t.sessionId = some row →
          ¬ (row.lifecycleVersion = t.lifecycleVersion ∧ row.status.isLive = true)) := by
  have hreach : SystemReachable keptState :=
    ProcessPool.Machine.reachable_of_run deployment_fresh (Option.some_get _).symm
  obtain ⟨hkept, hreturned⟩ := accepted_input_is_kept hreach
  constructor
  · obtain ⟨t, ht⟩ : ∃ t, keptState.shared.db.turn? 200 = some t :=
      Option.isSome_iff_exists.mp (by decide +kernel)
    obtain ⟨row, hrow⟩ : ∃ row, keptState.shared.db.session? 1 = some row :=
      Option.isSome_iff_exists.mp (by decide +kernel)
    have hturn : (keptState.shared.db.turn? 200).map
        (fun t ↦ (t.sessionId, t.lifecycleVersion, t.status)) = some (1, 0, .queued) := by
      decide +kernel
    have hsession : (keptState.shared.db.session? 1).map
        (fun r ↦ (r.lifecycleVersion, r.status, r.hostId)) = some (0, .running, some 5) := by
      decide +kernel
    rw [ht] at hturn
    rw [hrow] at hsession
    simp only [Option.map_some, Option.some.injEq, Prod.mk.injEq] at hturn hsession
    obtain ⟨hsid, hv, hstatus⟩ := hturn
    obtain ⟨hversion, hlive, hhost⟩ := hsession
    obtain ⟨p, hkey, -, -, hp, hkept⟩ := hkept 200 t row ht (hsid ▸ hrow) (hversion.trans hv.symm)
      (by rw [hlive]; rfl) (.inl hstatus)
    rw [hhost] at hp
    exact ⟨p, hkey, (Option.some.inj hp).symm, hkept⟩
  · have hproc : ((keptState.procs 4).bind Process.input?).any (fun p ↦
        decide (p.key = 100 ∧ p.stage = .returned .delivered)) = true := by decide +kernel
    obtain ⟨p, hp, hdelivered⟩ := (Option.any_eq_true _ _).mp hproc
    obtain ⟨proc, hproc, hinput⟩ := Option.bind_eq_some_iff.mp hp
    obtain ⟨hkey, hstage⟩ := of_decide_eq_true hdelivered
    obtain ⟨t, ht, hdone⟩ := hreturned 4 p .delivered
      (hproc.trans (congrArg some (Process.input?_eq_some hinput))) hstage (by decide)
    exact ⟨t, hkey ▸ ht, hdone⟩

end Discode
