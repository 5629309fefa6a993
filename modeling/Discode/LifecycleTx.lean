import Discode.JanitorSweeps
import Discode.Lifecycle

/-!
# Transactions that only move sessions

Most transactions change session rows by the moves of the lifecycle, touch no turn, and
leave the outbox rows that carry input jobs as they are.  A transaction is shown to be one
of these by going through its statements with the lemmas below.
-/

set_option autoImplicit false

namespace Discode

def Envelope.isInputJob : Envelope → Bool
  | sendInput _ => true
  | _ => false

/-- The outbox only grows at its counter, and no row loses its `published_at`. -/
structure OutboxGrows (db db' : Database) : Prop where
  next : db.outbox.next ≤ db'.outbox.next
  published : ∀ id < db.outbox.next, ∀ row', db'.outbox.get? id = some row' →
    ∃ row, db.outbox.get? id = some row ∧ (row.publishedAt.isSome → row'.publishedAt.isSome)

/-- The same job, up to the thread that `bind_session_thread` fills in. -/
def Envelope.SameJob (e e' : Envelope) : Prop :=
  e' = e ∨ ∃ p threadId, e = .createSession p ∧
    e' = .createSession { p with threadId := threadId }

/-- No row of the outbox is turned into another job. -/
def OutboxKeeps (db db' : Database) : Prop :=
  ∀ id < db.outbox.next, ∀ row', db'.outbox.get? id = some row' →
    ∃ row, db.outbox.get? id = some row ∧ row.envelope.SameJob row'.envelope

structure LifecycleTx (W : Writer → Prop) (db db' : Database) : Prop where
  core : ∀ sid, CoreStep W (db.core? sid) (db'.core? sid)
  turns : db'.inputTurns = db.inputTurns
  sequence : db'.nextSequence = db.nextSequence
  inputJobs : ∀ id row, row.envelope.isInputJob = true →
    (db'.outbox.get? id = some row ↔ db.outbox.get? id = some row)
  outbox : OutboxGrows db db'
  keeps : OutboxKeeps db db'

theorem OutboxGrows.refl (db : Database) : OutboxGrows db db :=
  ⟨le_rfl, fun _ _ row h ↦ ⟨row, h, id⟩⟩

theorem OutboxGrows.trans {db db' db'' : Database} (h : OutboxGrows db db')
    (h' : OutboxGrows db' db'') : OutboxGrows db db'' := by
  refine ⟨h.next.trans h'.next, fun id hid row'' hrow'' ↦ ?_⟩
  obtain ⟨row', hrow', hpub'⟩ := h'.published id (hid.trans_le h.next) row'' hrow''
  obtain ⟨row, hrow, hpub⟩ := h.published id hid row' hrow'
  exact ⟨row, hrow, hpub' ∘ hpub⟩

theorem OutboxGrows.of_eq {db db' : Database} (h : db'.outbox = db.outbox) :
    OutboxGrows db db' :=
  ⟨h ▸ le_rfl, fun _ _ row hrow ↦ ⟨row, h ▸ hrow, id⟩⟩

theorem OutboxGrows.writeOutbox (db : Database) (producer : Producer) (key : StreamKey)
    (e : Envelope) : OutboxGrows db (db.writeOutbox producer key e) := by
  refine ⟨Nat.le_succ _, fun id hid row hrow ↦ ⟨row, ?_, fun h ↦ h⟩⟩
  rwa [Database.writeOutbox, SerialTable.get?_insert, if_neg hid.ne] at hrow

theorem get?_sweepOutbox (settings : Settings) (batch : List ℕ) (snapshot db : Database) (id : ℕ) :
    (sweepOutbox settings batch snapshot db).outbox.get? id = (db.outbox.get? id).filter fun _ ↦
      !(batch.contains id && (snapshot.outbox.get? id).any (outboxExpired settings snapshot)) :=
  KeyedTable.get?_filterRows _ _ _

/-- A row that had expired in the snapshot is published in whatever version the sweep finds. -/
theorem OutboxGrows.published_of_expired {settings : Settings} {snapshot db : Database}
    (h : OutboxGrows snapshot db) {id : ℕ} {row : OutboxRow} (hrow : db.outbox.get? id = some row)
    (hexpired : (snapshot.outbox.get? id).any (outboxExpired settings snapshot) = true) :
    row.publishedAt.isSome := by
  obtain ⟨row₀, hrow₀, hexp⟩ := (Option.any_eq_true _ _).mp hexpired
  obtain ⟨row₁, hrow₁, hkeep⟩ := h.published id (SerialTable.get?_lt_next hrow₀) row hrow
  have heq : row₁ = row₀ := Option.some.inj (hrow₁.symm.trans hrow₀)
  exact hkeep (heq ▸ (of_decide_eq_true hexp).1)

theorem OutboxGrows.kept_of_unpublished {snapshot db : Database} (h : OutboxGrows snapshot db)
    (settings : Settings) (batch : List ℕ) {id : ℕ} {row : OutboxRow}
    (hrow : db.outbox.get? id = some row) (hnone : row.publishedAt = none) :
    (sweepOutbox settings batch snapshot db).outbox.get? id = some row := by
  rw [get?_sweepOutbox, hrow, Option.filter_some, if_pos]
  rw [Bool.not_eq_true', Bool.and_eq_false_imp]
  intro _
  refine Bool.eq_false_iff.mpr fun hexpired ↦ ?_
  have hsome := h.published_of_expired hrow hexpired
  rw [hnone] at hsome
  cases hsome

theorem Envelope.SameJob.trans {e e' e'' : Envelope} (h : e.SameJob e') (h' : e'.SameJob e'') :
    e.SameJob e'' := by
  rcases h with rfl | ⟨p, threadId, rfl, rfl⟩
  · exact h'
  · rcases h' with rfl | ⟨q, threadId', heq, rfl⟩
    · exact .inr ⟨p, threadId, rfl, rfl⟩
    · cases heq
      exact .inr ⟨p, threadId', rfl, rfl⟩

theorem OutboxKeeps.of_eq {db db' : Database} (h : db'.outbox = db.outbox) :
    OutboxKeeps db db' :=
  fun _ _ row hrow ↦ ⟨row, h ▸ hrow, .inl rfl⟩

theorem OutboxKeeps.writeOutbox {db db' : Database} (h : OutboxKeeps db db')
    (hnext : db.outbox.next ≤ db'.outbox.next) (producer : Producer) (key : StreamKey)
    (e : Envelope) : OutboxKeeps db (db'.writeOutbox producer key e) := by
  intro id hid row hrow
  rw [Database.writeOutbox, SerialTable.get?_insert, if_neg (hid.trans_le hnext).ne] at hrow
  exact h id hid row hrow

theorem OutboxKeeps.mapRows {db db' : Database} (h : OutboxKeeps db db')
    {g : ℕ → OutboxRow → OutboxRow}
    (hg : ∀ id (row : OutboxRow), row.envelope.SameJob (g id row).envelope) :
    OutboxKeeps db { db' with outbox := db'.outbox.mapRows g } := by
  intro id hid row' hrow'
  change (db'.outbox.toKeyedTable.mapRows g).get? id = some row' at hrow'
  rw [KeyedTable.get?_mapRows, Option.map_eq_some_iff] at hrow'
  obtain ⟨row, hrow, rfl⟩ := hrow'
  obtain ⟨row₀, hrow₀, hsame⟩ := h id hid row hrow
  exact ⟨row₀, hrow₀, hsame.trans (hg id row)⟩

namespace LifecycleTx

variable {W W' : Writer → Prop} {db db' db'' : Database}

theorem refl (W : Writer → Prop) (db : Database) : LifecycleTx W db db :=
  ⟨fun _ ↦ .same _, rfl, rfl, fun _ _ _ ↦ Iff.rfl, .refl db, .of_eq rfl⟩

theorem mono (h : LifecycleTx W db db') (hW : ∀ w, W w → W' w) : LifecycleTx W' db db' :=
  ⟨fun sid ↦ (h.core sid).mono hW, h.turns, h.sequence, h.inputJobs, h.outbox, h.keeps⟩

/-- A further statement on other tables, or on columns outside the core. -/
theorem frame (h : LifecycleTx W db db') (hcore : ∀ sid, db''.core? sid = db'.core? sid)
    (hturns : db''.inputTurns = db'.inputTurns) (hseq : db''.nextSequence = db'.nextSequence)
    (houtbox : db''.outbox = db'.outbox) : LifecycleTx W db db'' where
  core sid := hcore sid ▸ h.core sid
  turns := hturns.trans h.turns
  sequence := hseq.trans h.sequence
  inputJobs id row he := by
    rw [houtbox]
    exact h.inputJobs id row he
  outbox := h.outbox.trans (.of_eq houtbox)
  keeps id hid row hrow := h.keeps id hid row (houtbox ▸ hrow)

theorem writeOutbox (h : LifecycleTx W db db') (producer : Producer) (key : StreamKey)
    {e : Envelope} (he : e.isInputJob = false) :
    LifecycleTx W db (db'.writeOutbox producer key e) where
  core := h.core
  turns := h.turns
  sequence := h.sequence
  inputJobs id row hrow := by
    rw [← h.inputJobs id row hrow, Database.writeOutbox, SerialTable.get?_insert]
    by_cases hid : id = db'.outbox.next
    · have hnone : db'.outbox.get? id ≠ some row := fun hsome ↦
        (SerialTable.get?_lt_next hsome).ne hid
      have hne : some (OutboxRow.write db'.now producer key e) ≠ some row := by
        rintro ⟨rfl⟩
        rw [OutboxRow.write, he] at hrow
        cases hrow
      simp only [if_pos hid, hne, hnone]
    · rw [if_neg hid]
  outbox := h.outbox.trans (.writeOutbox db' producer key e)
  keeps := h.keeps.writeOutbox h.outbox.next producer key e

theorem writeAll (h : LifecycleTx W db db') (producer : Producer)
    {messages : List (StreamKey × Envelope)} (hm : ∀ m ∈ messages, m.2.isInputJob = false) :
    LifecycleTx W db (db'.writeAll producer messages) := by
  induction messages generalizing db' with
  | nil => exact h
  | cons m messages ih =>
      have hm' : m.2.isInputJob = false := hm m List.mem_cons_self
      exact ih (h.writeOutbox producer m.1 hm') fun m' h' ↦ hm m' (List.mem_cons_of_mem m h')

/-- An `UPDATE redis_outbox` of rows that carry other jobs. -/
theorem mapOutbox (h : LifecycleTx W db db') (g : ℕ → OutboxRow → OutboxRow)
    (hg : ∀ id row, g id row = row ∨ row.envelope.isInputJob = false ∧
      (g id row).envelope.isInputJob = false ∧ (g id row).publishedAt = row.publishedAt)
    (hjob : ∀ id (row : OutboxRow), row.envelope.SameJob (g id row).envelope) :
    LifecycleTx W db { db' with outbox := db'.outbox.mapRows g } where
  core := h.core
  turns := h.turns
  sequence := h.sequence
  inputJobs id row hrow := by
    rw [← h.inputJobs id row hrow]
    change (db'.outbox.toKeyedTable.mapRows g).get? id = some row ↔ _
    rw [KeyedTable.get?_mapRows, Option.map_eq_some_iff]
    constructor
    · rintro ⟨row', hrow', hg'⟩
      rcases hg id row' with heq | ⟨-, hnot, -⟩
      · rwa [← hg', heq]
      · rw [hg', hrow] at hnot
        cases hnot
    · intro hget
      rcases hg id row with heq | ⟨hnot, -⟩
      · exact ⟨row, hget, heq⟩
      · rw [hrow] at hnot
        cases hnot
  outbox := by
    refine h.outbox.trans ⟨le_rfl, fun id _ row' hrow' ↦ ?_⟩
    change (db'.outbox.toKeyedTable.mapRows g).get? id = some row' at hrow'
    rw [KeyedTable.get?_mapRows, Option.map_eq_some_iff] at hrow'
    obtain ⟨row, hrow, rfl⟩ := hrow'
    refine ⟨row, hrow, fun hpub ↦ ?_⟩
    rcases hg id row with heq | ⟨-, -, heq⟩
    · rwa [heq]
    · rwa [heq]
  keeps := h.keeps.mapRows hjob

/-- `UPDATE sessions`, row by row. -/
theorem mapSessions (f : SessionId → SessionRow → SessionRow)
    (hf : ∀ sid r, db.session? sid = some r → CoreStep W (some r.core) (some (f sid r).core)) :
    LifecycleTx W db { db with sessions := db.sessions.mapRows f } where
  core sid := by
    have hget : Database.core? { db with sessions := db.sessions.mapRows f } sid =
        (db.session? sid).map fun r ↦ (f sid r).core := by
      simp [Database.core?, Database.session?, Function.comp_def]
    rw [hget, Database.core?]
    cases hr : db.session? sid with
    | none => exact .same _
    | some r => exact hf sid r hr
  turns := rfl
  sequence := rfl
  inputJobs _ _ _ := Iff.rfl
  outbox := .of_eq rfl
  keeps := .of_eq rfl

theorem updateSession (sid : SessionId) (f : SessionRow → SessionRow)
    (hf : ∀ r, db.session? sid = some r → CoreStep W (some r.core) (some (f r).core)) :
    LifecycleTx W db (db.updateSession sid f) :=
  mapSessions _ fun sid' r hr ↦ by
    by_cases h : sid' = sid
    · rw [if_pos h]
      exact hf r (h ▸ hr)
    · rw [if_neg h]
      exact .same _

/-- A write that changes no core field of the row. -/
theorem updateSession_quiet (h : LifecycleTx W db db') (sid : SessionId)
    {f : SessionRow → SessionRow} (hf : ∀ r, (f r).core = r.core) :
    LifecycleTx W db (db'.updateSession sid f) :=
  h.frame (fun sid' ↦ by
    rw [Database.core?, Database.session?_updateSession, Database.core?]
    split
    · rw [Option.map_map, show SessionRow.core ∘ f = SessionRow.core from funext hf]
    · rfl) rfl rfl rfl

theorem updateDue {snapshot : Database} {p : SessionId → SessionRow → Bool}
    {f : SessionRow → SessionRow} (w : Writer) (hW : W w)
    (hp : ∀ sid r, p sid r = true → r.status ∈ w.sources)
    (hf : ∀ r, (f r).core = w.assign r.core) : LifecycleTx W db (snapshot.updateDue p f db) :=
  mapSessions _ fun sid r _ ↦ by
    by_cases h : snapshot.due p sid r = true
    · rw [if_pos h, hf]
      exact .move w _ hW (hp sid r (Bool.and_eq_true_iff.mp h).1)
    · rw [if_neg h]
      exact .same _

theorem releaseSuperseded (h : LifecycleTx W db db') (sid : SessionId) (rows : List SessionId) :
    LifecycleTx W db (db'.releaseSuperseded sid rows) :=
  h.frame (fun sid' ↦ by
    rw [Database.core?, Database.session?_releaseSuperseded, Option.map_map, Database.core?]
    congr 1
    funext r
    by_cases hr : sid' ∈ rows ∧ r.status = .archived ∧ r.statusReason = some (.superseded sid)
    · simp only [Function.comp_apply, if_pos hr]
      rfl
    · simp only [Function.comp_apply, if_neg hr]) rfl rfl rfl

theorem foldl_releaseSuperseded {rows : List (SessionId × SessionRow)}
    (h : LifecycleTx W db db') (released : SessionId → List SessionId) :
    LifecycleTx W db (rows.foldl (fun db e ↦ db.releaseSuperseded e.1 (released e.1)) db') := by
  induction rows generalizing db' with
  | nil => exact h
  | cons e rows ih => exact ih (h.releaseSuperseded e.1 (released e.1))

end LifecycleTx

end Discode
