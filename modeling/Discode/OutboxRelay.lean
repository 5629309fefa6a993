import Discode.LifecycleTx
import Discode.Library.ProcessPool
import Discode.Relay

/-!
# Relays that share an outbox

A drain is one transaction: it locks a batch with `FOR UPDATE SKIP LOCKED`, publishes the
rows one by one and commits what it noted about them.  Several relays drain the same
producer, and the transaction may roll back after any of its `XADD`s.
-/

set_option autoImplicit false

namespace Discode

namespace OutboxRelay

/-- The configuration refuses a limit that is not positive. -/
structure RelaySettings extends Settings where
  maxAttempts_pos : 0 < outboxMaxAttempts

/-- What reaches Redis, and the errors of `XADD`; no code reads this record. -/
inductive Event where
  | added (id : ℕ) (streamKey : StreamKey) (envelope : Envelope)
  | rowError (pid id : ℕ)
  | unavailable (pid : ℕ)
  deriving DecidableEq, Repr

structure Store where
  db : Database
  /-- The transaction that holds the lock of an outbox row. -/
  rowLocks : ℕ → Option ℕ
  /-- The newest event comes first. -/
  log : List Event

def Store.lock (s : Store) (pid : ℕ) (ids : List ℕ) : Store :=
  { s with rowLocks := fun id ↦ if id ∈ ids then some pid else s.rowLocks id }

def Store.release (s : Store) (pid : ℕ) : Store :=
  { s with rowLocks := fun id ↦ if s.rowLocks id = some pid then none else s.rowLocks id }

/-! ## `RelayLoop._drain_batch` -/

def isSelectable (settings : RelaySettings) (producer : Producer) (now : Time)
    (row : OutboxRow) : Bool :=
  row.producer = producer ∧ row.publishedAt.isNone ∧ row.nextAttemptAt ≤ now ∧
    row.attempts < settings.outboxMaxAttempts

/-- The batch of a drain.  It passes over the rows that others hold, and over those it could
not see when its statement began. -/
def batch (settings : RelaySettings) (producer : Producer) (now : Time) (unseen : List ℕ)
    (s : Store) : List (ℕ × OutboxRow) :=
  (s.db.outbox.select fun id row ↦ isSelectable settings producer now row ∧
    s.rowLocks id = none ∧ id ∉ unseen).take settings.outboxBatchSize

/-- An `UPDATE redis_outbox SET …` of the drain that has not been committed yet. -/
inductive RowUpdate where
  | published (at_ : Time)
  | failed (attempts : ℕ) (nextAttemptAt : Time) (error : OutboxError)
  deriving DecidableEq, Repr

def RowUpdate.apply : RowUpdate → OutboxRow → OutboxRow
  | published at_, row => { row with publishedAt := some at_ }
  | failed attempts nextAttemptAt error, row =>
      { row with attempts := attempts, nextAttemptAt := nextAttemptAt, error := some error }

/-- `_record_failure`. -/
def recordFailure (settings : RelaySettings) (now : Time) (row : OutboxRow) : RowUpdate :=
  let attempts := row.attempts + 1
  .failed attempts
    (now + min (settings.outboxBaseBackoffMs * 2 ^ min attempts 30) settings.outboxMaxBackoffMs)
    (if settings.outboxMaxAttempts ≤ attempts then .maxAttempts else .other)

structure Drain where
  rows : List (ℕ × OutboxRow)
  /-- The newest update comes first. -/
  updates : List (ℕ × RowUpdate)
  deriving DecidableEq, Repr

def updateRow (db : Database) (id : ℕ) (f : OutboxRow → OutboxRow) : Database :=
  { db with outbox := db.outbox.mapRows fun id' row ↦ if id' = id then f row else row }

def applyUpdates (updates : List (ℕ × RowUpdate)) (db : Database) : Database :=
  updates.foldr (fun u db ↦ updateRow db u.1 u.2.apply) db

/-- The rows whose payload `bind_session_thread` patches. -/
def isQueuedCreation (sid : SessionId) (row : OutboxRow) : Bool :=
  match row.envelope, row.publishedAt with
  | .createSession p, none => p.sessionId = sid
  | _, _ => false

/-! ## The parties -/

inductive EnvAction where
  | writeOutbox (producer : Producer) (streamKey : StreamKey) (envelope : Envelope)
  /-- A transaction on other tables. -/
  | elsewhere (db : Database)
  /-- `recover_outbox.py --retry`. -/
  | recover (id : ℕ)
  | bindThread (sid : SessionId) (threadId : ThreadId)

inductive SpawnAction where
  | drain (producer : Producer) (now : Time) (unseen : List ℕ)
  | sweep (batch : List ℕ)

inductive Process where
  | drain (p : Drain)
  | sweep (batch : List ℕ) (snapshot : Database)

inductive ExecAction where
  | xadd (now : Time)
  /-- Redis refuses the row. -/
  | xaddRaises (now : Time)
  /-- A connection or timeout error; the command may have taken effect. -/
  | redisUnavailable (took : Bool)
  | commit
  | rollback
  deriving DecidableEq, Repr

/-- An `UPDATE` waits for the locks of its rows and then reads their new versions. -/
def envStep (s : Store) : EnvAction → Option Store
  | .writeOutbox producer streamKey envelope =>
      some { s with db := s.db.writeOutbox producer streamKey envelope }
  | .elsewhere db => some { s with db := { db with outbox := s.db.outbox } }
  | .recover id =>
      if s.rowLocks id = none then some { s with db := retryOutbox id s.db } else none
  | .bindThread sid threadId =>
      if (s.db.outbox.select fun _ row ↦ isQueuedCreation sid row).all fun e ↦
          s.rowLocks e.1 = none then
        some { s with db := (bindSessionThread sid threadId s.db).1 }
      else none

def spawnStep (settings : RelaySettings) (pid : ℕ) (s : Store) :
    SpawnAction → Option (Store × Process)
  | .drain producer now unseen =>
      let rows := batch settings producer now unseen s
      some (s.lock pid (rows.map Prod.fst), .drain ⟨rows, []⟩)
  | .sweep batch => some (s, .sweep batch s.db)

def drainStep (settings : RelaySettings) (pid : ℕ) (s : Store) (p : Drain) :
    ExecAction → Option (Store × Option Drain)
  | .xadd now =>
      match p.rows with
      | [] => none
      | (id, row) :: rest => some (
          { s with log := .added id row.streamKey row.envelope :: s.log },
          some ⟨rest, (id, .published now) :: p.updates⟩)
  | .xaddRaises now =>
      match p.rows with
      | [] => none
      | (id, row) :: rest => some ({ s with log := .rowError pid id :: s.log },
          some ⟨rest, (id, recordFailure settings now row) :: p.updates⟩)
  | .redisUnavailable took =>
      match p.rows with
      | [] => none
      | (id, row) :: _ => some (
          { s with log := .unavailable pid :: ((if took then
              [.added id row.streamKey row.envelope] else []) ++ s.log) },
          some ⟨[], p.updates⟩)
  | .commit =>
      match p.rows with
      | [] => some ({ s with db := applyUpdates p.updates s.db }.release pid, none)
      | _ :: _ => none
  | .rollback => some (s.release pid, none)

def execStep (settings : RelaySettings) (pid : ℕ) (s : Store) :
    Process → ExecAction → Option (Store × Option Process)
  | .drain p, a => (drainStep settings pid s p a).map fun (s, p) ↦ (s, p.map .drain)
  | .sweep batch snapshot, .commit =>
      some ({ s with db := sweepOutbox settings.toSettings batch snapshot s.db }, none)
  | .sweep _ _, .rollback => some (s, none)
  | .sweep _ _, _ => none

def machine (settings : RelaySettings) :
    ProcessPool.Machine Store Process EnvAction SpawnAction ExecAction where
  env := envStep
  spawn := spawnStep settings
  exec := execStep settings

/-- Any database whose outbox is still unused. -/
def FreshStore (s : Store) : Prop :=
  s.db.outbox = .empty ∧ (∀ id, s.rowLocks id = none) ∧ s.log = []

abbrev RelayState := ProcessPool.State Store Process

abbrev RelayAction := ProcessPool.Action EnvAction SpawnAction ExecAction

/-! ## What a drain writes -/

theorem get?_updateRow (db : Database) (id : ℕ) (f : OutboxRow → OutboxRow) (id' : ℕ) :
    (updateRow db id f).outbox.get? id' =
      if id' = id then (db.outbox.get? id').map f else db.outbox.get? id' := by
  change (db.outbox.toKeyedTable.mapRows _).get? id' = _
  rw [KeyedTable.get?_mapRows]
  by_cases h : id' = id
  · simp [h]
  · simp [h]

/-- The updates of one row, applied in the order in which they were made. -/
def updatesOf (id : ℕ) (updates : List (ℕ × RowUpdate)) : List RowUpdate :=
  (updates.filter fun u ↦ u.1 = id).map Prod.snd

theorem mem_updatesOf {id : ℕ} {updates : List (ℕ × RowUpdate)} {u : RowUpdate} :
    u ∈ updatesOf id updates ↔ (id, u) ∈ updates := by
  simp [updatesOf]

theorem get?_applyUpdates (updates : List (ℕ × RowUpdate)) (db : Database) (id : ℕ) :
    (applyUpdates updates db).outbox.get? id =
      (db.outbox.get? id).map fun row ↦ (updatesOf id updates).foldr RowUpdate.apply row := by
  induction updates with
  | nil => simp [applyUpdates, updatesOf]
  | cons u updates ih =>
      change (updateRow (applyUpdates updates db) u.1 u.2.apply).outbox.get? id = _
      rw [get?_updateRow, ih]
      by_cases h : id = u.1
      · simp [updatesOf, h, Function.comp_def]
      · simp [updatesOf, h, Ne.symm h]

/-- What happened to a row before the drain `pid` noted the update. -/
def Justified (settings : RelaySettings) (pid : ℕ) (log : List Event) (id : ℕ)
    (row : OutboxRow) : RowUpdate → Prop
  | .published _ => .added id row.streamKey row.envelope ∈ log
  | .failed attempts _ error => .rowError pid id ∈ log ∧ attempts = row.attempts + 1 ∧
      (settings.outboxMaxAttempts ≤ attempts → error = .maxAttempts)

/-- A row before and after the commit of the drain `pid`. -/
structure Drained (settings : RelaySettings) (pid : ℕ) (log : List Event) (id : ℕ)
    (row row' : OutboxRow) : Prop where
  streamKey : row'.streamKey = row.streamKey
  envelope : row'.envelope = row.envelope
  published : row'.publishedAt = row.publishedAt ∨ row'.publishedAt.isSome ∧
    .added id row.streamKey row.envelope ∈ log
  attempts : row'.attempts = row.attempts ∧ row'.error = row.error ∨
    .rowError pid id ∈ log ∧ row'.attempts = row.attempts + 1 ∧
      (settings.outboxMaxAttempts ≤ row'.attempts → row'.error = some .maxAttempts)

theorem drained_foldr {settings : RelaySettings} {pid : ℕ} {log : List Event} {id : ℕ}
    {row : OutboxRow} {updates : List RowUpdate}
    (h : ∀ u ∈ updates, Justified settings pid log id row u) :
    Drained settings pid log id row (updates.foldr RowUpdate.apply row) := by
  induction updates with
  | nil => exact ⟨rfl, rfl, .inl rfl, .inl ⟨rfl, rfl⟩⟩
  | cons u updates ih =>
      have ih := ih fun u hu ↦ h u (List.mem_cons_of_mem _ hu)
      have hu := h u List.mem_cons_self
      rw [List.foldr_cons]
      cases u with
      | published at_ => exact ⟨ih.streamKey, ih.envelope, .inr ⟨rfl, hu⟩, ih.attempts⟩
      | failed attempts nextAttemptAt error =>
          obtain ⟨herror, hattempts, hmax⟩ := hu
          refine ⟨ih.streamKey, ih.envelope, ih.published, .inr ⟨herror, hattempts, ?_⟩⟩
          intro hle
          exact congrArg some (hmax hle)

/-! ## The invariant -/

structure RowOk (settings : RelaySettings) (log : List Event) (id : ℕ) (row : OutboxRow) :
    Prop where
  published : row.publishedAt.isSome → .added id row.streamKey row.envelope ∈ log
  attempts : row.attempts ≤ settings.outboxMaxAttempts
  recoverable : row.publishedAt = none →
    row.attempts < settings.outboxMaxAttempts ∨ row.error = some .maxAttempts

def RelayInv (settings : RelaySettings) (s : Store) : Prop :=
  ∀ id row, s.db.outbox.get? id = some row → RowOk settings s.log id row

/-- What the step `a` does to a row; `none` deletes it. -/
inductive RowStep (settings : RelaySettings) (log : List Event) (a : RelayAction) (id : ℕ)
    (row : OutboxRow) : Option OutboxRow → Prop where
  | kept : RowStep settings log a id row (some row)
  | deleted (h : row.publishedAt.isSome) : RowStep settings log a id row none
  | patched (e : Envelope) (h : row.publishedAt = none) :
      RowStep settings log a id row (some { row with envelope := e })
  | recovered (now : Time) (h : row.publishedAt = none) (he : row.error = some .maxAttempts) :
      RowStep settings log a id row
        (some { row with attempts := 0, error := none, nextAttemptAt := now })
  | drained (pid : ℕ) (ha : a = .exec pid .commit) (hunpublished : row.publishedAt = none)
      (hattempts : row.attempts < settings.outboxMaxAttempts) {row' : OutboxRow}
      (h : Drained settings pid log id row row') : RowStep settings log a id row (some row')

theorem RowOk.mono {settings : RelaySettings} {log log' : List Event} {id : ℕ} {row : OutboxRow}
    (h : RowOk settings log id row) (hlog : ∀ e ∈ log, e ∈ log') : RowOk settings log' id row :=
  ⟨fun hp ↦ hlog _ (h.published hp), h.attempts, h.recoverable⟩

theorem RowOk.step {settings : RelaySettings} {log : List Event} {a : RelayAction} {id : ℕ}
    {row row' : OutboxRow} (h : RowOk settings log id row)
    (hs : RowStep settings log a id row (some row')) : RowOk settings log id row' := by
  cases hs with
  | kept => exact h
  | patched e hnone =>
      refine ⟨fun hp ↦ ?_, h.attempts, h.recoverable⟩
      change row.publishedAt.isSome at hp
      rw [hnone] at hp
      cases hp
  | recovered now hnone he =>
      refine ⟨fun hp ↦ h.published hp, Nat.zero_le _, fun _ ↦ .inl settings.maxAttempts_pos⟩
  | drained pid _ hnone hlt hd =>
      have hbound : row'.attempts ≤ settings.outboxMaxAttempts := by
        rcases hd.attempts with ⟨ha, -⟩ | ⟨-, ha, -⟩ <;> omega
      refine ⟨fun hp ↦ ?_, hbound, fun _ ↦ ?_⟩
      · rw [hd.streamKey, hd.envelope]
        rcases hd.published with heq | ⟨-, hadded⟩
        · rw [heq, hnone] at hp
          cases hp
        · exact hadded
      · rcases hd.attempts with ⟨ha, -⟩ | ⟨-, ha, hmax⟩
        · exact .inl (ha ▸ hlt)
        · rcases Nat.lt_or_ge row'.attempts settings.outboxMaxAttempts with hlt' | hge
          · exact .inl hlt'
          · exact .inr (hmax hge)

/-! ## What a transaction knows while it holds its locks -/

structure Holds (settings : RelaySettings) (pid : ℕ) (s : Store) (id : ℕ) (row : OutboxRow) :
    Prop where
  lock : s.rowLocks id = some pid
  current : s.db.outbox.get? id = some row
  unpublished : row.publishedAt = none
  attempts : row.attempts < settings.outboxMaxAttempts

structure Drain.Ok (settings : RelaySettings) (pid : ℕ) (s : Store) (p : Drain) : Prop where
  rows : ∀ id row, (id, row) ∈ p.rows → Holds settings pid s id row
  updates : ∀ id u, (id, u) ∈ p.updates →
    ∃ row, Holds settings pid s id row ∧ Justified settings pid s.log id row u

def Process.Ok (settings : RelaySettings) (pid : ℕ) (p : Process) (s : Store) : Prop :=
  match p with
  | .drain p => p.Ok settings pid s
  | .sweep _ snapshot => OutboxGrows snapshot s.db

/-- A step that leaves the locks and the locked rows of `pid` alone. -/
structure Frame (pid : ℕ) (s s' : Store) : Prop where
  outbox : OutboxGrows s.db s'.db
  locks : ∀ id, s.rowLocks id = some pid → s'.rowLocks id = some pid
  rows : ∀ id row, s.rowLocks id = some pid → s.db.outbox.get? id = some row →
    row.publishedAt = none → s'.db.outbox.get? id = some row
  log : ∀ e ∈ s.log, e ∈ s'.log

theorem Holds.frame {settings : RelaySettings} {pid : ℕ} {s s' : Store} {id : ℕ}
    {row : OutboxRow} (h : Holds settings pid s id row) (hf : Frame pid s s') :
    Holds settings pid s' id row :=
  ⟨hf.locks id h.lock, hf.rows id row h.lock h.current h.unpublished, h.unpublished, h.attempts⟩

theorem Justified.mono {settings : RelaySettings} {pid : ℕ} {log log' : List Event} {id : ℕ}
    {row : OutboxRow} {u : RowUpdate} (h : Justified settings pid log id row u)
    (hlog : ∀ e ∈ log, e ∈ log') : Justified settings pid log' id row u := by
  cases u with
  | published at_ => exact hlog _ h
  | failed attempts nextAttemptAt error => exact ⟨hlog _ h.1, h.2⟩

theorem Process.Ok.frame {settings : RelaySettings} {pid : ℕ} {p : Process} {s s' : Store}
    (h : p.Ok settings pid s) (hf : Frame pid s s') : p.Ok settings pid s' := by
  cases p with
  | sweep batch snapshot => exact OutboxGrows.trans h hf.outbox
  | drain p =>
      refine ⟨fun id row hmem ↦ (h.rows id row hmem).frame hf, fun id u hmem ↦ ?_⟩
      obtain ⟨row, hrow, hu⟩ := h.updates id u hmem
      exact ⟨row, hrow.frame hf, hu.mono hf.log⟩

/-! ## What one step does to the store -/

structure Change (settings : RelaySettings) (a : RelayAction) (s s' : Store) : Prop where
  next : s.db.outbox.next ≤ s'.db.outbox.next
  rows : ∀ id row, s.db.outbox.get? id = some row →
    RowStep settings s.log a id row (s'.db.outbox.get? id)
  fresh : ∀ id row', s.db.outbox.get? id = none → s'.db.outbox.get? id = some row' →
    s.db.outbox.next ≤ id ∧ RowOk settings s'.log id row'
  log : ∀ e ∈ s.log, e ∈ s'.log
  /-- The rows that others hold stay theirs and stay as they are. -/
  locks : ∀ pid, (∀ b, a ≠ .exec pid b) → ∀ id, s.rowLocks id = some pid →
    s'.rowLocks id = some pid ∧ ∀ row, s.db.outbox.get? id = some row →
      row.publishedAt = none → s'.db.outbox.get? id = some row

namespace Change

variable {settings : RelaySettings} {a : RelayAction} {s s' : Store}

theorem grows (h : Change settings a s s') : OutboxGrows s.db s'.db := by
  refine ⟨h.next, fun id hid row' hrow' ↦ ?_⟩
  cases hrow : s.db.outbox.get? id with
  | none =>
      have hle := (h.fresh id row' hrow hrow').1
      omega
  | some row =>
      refine ⟨row, rfl, fun hp ↦ ?_⟩
      have hstep := hrow' ▸ h.rows id row hrow
      cases hstep with
      | kept => exact hp
      | patched => exact hp
      | recovered => exact hp
      | drained _ _ hnone => rw [hnone] at hp; cases hp

theorem inv (h : Change settings a s s') (hinv : RelayInv settings s) :
    RelayInv settings s' := by
  intro id row' hrow'
  cases hrow : s.db.outbox.get? id with
  | none => exact (h.fresh id row' hrow hrow').2
  | some row =>
      have hstep := hrow' ▸ h.rows id row hrow
      exact ((hinv id row hrow).step hstep).mono h.log

theorem frame (h : Change settings a s s') {pid : ℕ} (hpid : ∀ b, a ≠ .exec pid b) :
    Frame pid s s' :=
  ⟨h.grows, fun id hl ↦ (h.locks pid hpid id hl).1,
    fun id row hl hrow hnone ↦ (h.locks pid hpid id hl).2 row hrow hnone, h.log⟩

/-- A step that does not touch the outbox. -/
theorem of_outbox (hout : s'.db.outbox = s.db.outbox) (hlog : ∀ e ∈ s.log, e ∈ s'.log)
    (hlocks : ∀ pid, (∀ b, a ≠ .exec pid b) → ∀ id, s.rowLocks id = some pid →
      s'.rowLocks id = some pid) : Change settings a s s' where
  next := hout ▸ le_rfl
  rows id row hrow := by
    rw [hout, hrow]
    exact .kept
  fresh id row' hnone hrow' := by
    rw [hout, hnone] at hrow'
    cases hrow'
  log := hlog
  locks pid hpid id hl := ⟨hlocks pid hpid id hl, fun row hrow _ ↦ hout ▸ hrow⟩

/-- An `UPDATE redis_outbox` that waited for the locks of the rows it changes. -/
theorem mapRows {g : ℕ → OutboxRow → OutboxRow} {db : Database}
    (hdb : db.outbox = s.db.outbox.mapRows g)
    (hg : ∀ id row, s.db.outbox.get? id = some row →
      g id row = row ∨ s.rowLocks id = none ∧ RowStep settings s.log a id row (some (g id row))) :
    Change settings a s { s with db := db } := by
  have hget : ∀ id, db.outbox.get? id = (s.db.outbox.get? id).map (g id) := fun id ↦ by
    rw [hdb]
    exact KeyedTable.get?_mapRows _ _ _
  refine ⟨hdb ▸ le_rfl, fun id row hrow ↦ ?_, fun id row' hnone hrow' ↦ ?_, fun _ he ↦ he,
    fun pid _ id hl ↦ ⟨hl, fun row hrow _ ↦ ?_⟩⟩
  · rw [hget, hrow]
    rcases hg id row hrow with heq | ⟨-, hstep⟩
    · rw [Option.map_some, heq]
      exact .kept
    · exact hstep
  · change db.outbox.get? id = some row' at hrow'
    rw [hget, hnone] at hrow'
    cases hrow'
  · change db.outbox.get? id = some row
    rw [hget, hrow]
    rcases hg id row hrow with heq | ⟨hfree, -⟩
    · rw [Option.map_some, heq]
    · rw [hl] at hfree
      cases hfree

end Change

theorem bindSessionThread_outbox (sid : SessionId) (threadId : ThreadId) (db : Database) :
    ∃ g : ℕ → OutboxRow → OutboxRow,
      (bindSessionThread sid threadId db).1.outbox = db.outbox.mapRows g ∧
      ∀ id row, g id row = row ∨
        isQueuedCreation sid row = true ∧ ∃ e, g id row = { row with envelope := e } := by
  have hsame : db.outbox = db.outbox.mapRows fun _ row ↦ row := by
    cases hdb : db.outbox with
    | mk t next bound => simp [SerialTable.mapRows, KeyedTable.mapRows]
  have hid : ∃ g : ℕ → OutboxRow → OutboxRow, db.outbox = db.outbox.mapRows g ∧
      ∀ id row, g id row = row ∨
        isQueuedCreation sid row = true ∧ ∃ e, g id row = { row with envelope := e } :=
    ⟨fun _ row ↦ row, hsame, fun _ _ ↦ .inl rfl⟩
  unfold bindSessionThread
  split
  · exact hid
  · split
    · exact hid
    · split
      · exact hid
      · split
        · exact hid
        · refine ⟨_, rfl, fun _ row ↦ ?_⟩
          split
          · rename_i p he hp
            by_cases hsid : p.sessionId = sid
            · right
              refine ⟨?_, _, if_pos hsid⟩
              simp [isQueuedCreation, he, hp, hsid]
            · exact .inl (if_neg hsid)
          · exact .inl rfl

theorem envStep_change {settings : RelaySettings} {s s' : Store} {e : EnvAction}
    (h : envStep s e = some s') : Change settings (.env e) s s' := by
  cases e with
  | writeOutbox producer streamKey envelope =>
      cases h
      have hget := SerialTable.get?_insert s.db.outbox
        (OutboxRow.write s.db.now producer streamKey envelope)
      have hnext : s.db.outbox.get? s.db.outbox.next = none :=
        Option.eq_none_iff_forall_ne_some.mpr fun row hrow ↦
          (SerialTable.get?_lt_next hrow).ne rfl
      have hold : ∀ id row, s.db.outbox.get? id = some row →
          (s.db.writeOutbox producer streamKey envelope).outbox.get? id = some row := by
        intro id row hrow
        rw [Database.writeOutbox, hget, if_neg (SerialTable.get?_lt_next hrow).ne]
        exact hrow
      refine ⟨Nat.le_succ _, fun id row hrow ↦ ?_, fun id row' hnone hrow' ↦ ?_, fun _ he ↦ he,
        fun pid _ id hl ↦ ⟨hl, fun row hrow _ ↦ hold id row hrow⟩⟩
      · rw [hold id row hrow]
        exact .kept
      · change (s.db.outbox.insert _).get? id = some row' at hrow'
        rw [hget] at hrow'
        split at hrow'
        · rename_i hid
          cases hrow'
          refine ⟨hid.ge, fun hp ↦ ?_, Nat.zero_le _, fun _ ↦ .inl settings.maxAttempts_pos⟩
          cases hp
        · rw [hnone] at hrow'
          cases hrow'
  | elsewhere db =>
      cases h
      exact .of_outbox rfl (fun _ he ↦ he) fun _ _ _ hl ↦ hl
  | recover id =>
      simp only [envStep] at h
      split at h
      · rename_i hfree
        cases h
        refine .mapRows rfl fun id' row _ ↦ ?_
        split
        · rename_i hrow
          obtain ⟨rfl, hnone, he⟩ := hrow
          exact .inr ⟨hfree, .recovered _ (Option.isNone_iff_eq_none.mp hnone) he⟩
        · exact .inl rfl
      · cases h
  | bindThread sid threadId =>
      simp only [envStep] at h
      split at h
      · rename_i hfree
        cases h
        obtain ⟨g, hout, hg⟩ := bindSessionThread_outbox sid threadId s.db
        refine .mapRows hout fun id row hrow ↦ ?_
        rcases hg id row with heq | ⟨hqueued, e, he⟩
        · exact .inl heq
        · right
          have hmem : (id, row) ∈ s.db.outbox.select fun _ row ↦ isQueuedCreation sid row :=
            KeyedTable.mem_select_iff.mpr ⟨hrow, hqueued⟩
          have hnone : row.publishedAt = none := by
            unfold isQueuedCreation at hqueued
            split at hqueued
            · assumption
            · cases hqueued
          refine ⟨of_decide_eq_true (List.all_eq_true.mp hfree _ hmem), ?_⟩
          rw [he]
          exact .patched e hnone
      · cases h

theorem mem_batch {settings : RelaySettings} {producer : Producer} {now : Time}
    {unseen : List ℕ} {s : Store} {id : ℕ} {row : OutboxRow}
    (h : (id, row) ∈ batch settings producer now unseen s) :
    s.db.outbox.get? id = some row ∧ s.rowLocks id = none ∧ row.publishedAt = none ∧
      row.attempts < settings.outboxMaxAttempts := by
  have hsel := KeyedTable.mem_select_iff.mp (List.mem_of_mem_take h)
  obtain ⟨hget, hp⟩ := hsel
  obtain ⟨hsel, hfree, -⟩ := of_decide_eq_true hp
  obtain ⟨-, hnone, -, hlt⟩ := of_decide_eq_true hsel
  exact ⟨hget, hfree, Option.isNone_iff_eq_none.mp hnone, hlt⟩

theorem spawnStep_change {settings : RelaySettings} {pid : ℕ} {s s' : Store} {n : SpawnAction}
    {p : Process} (h : spawnStep settings pid s n = some (s', p)) :
    Change settings (.spawn n) s s' ∧ p.Ok settings pid s' := by
  cases n with
  | sweep batch =>
      cases h
      exact ⟨.of_outbox rfl (fun _ he ↦ he) fun _ _ _ hl ↦ hl, .refl _⟩
  | drain producer now unseen =>
      cases h
      have hfree : ∀ id q, s.rowLocks id = some q →
          id ∉ (batch settings producer now unseen s).map Prod.fst := by
        intro id q hl hmem
        obtain ⟨⟨id', row⟩, hrow, rfl⟩ := List.mem_map.mp hmem
        rw [(mem_batch hrow).2.1] at hl
        cases hl
      constructor
      · refine .of_outbox rfl (fun _ he ↦ he) fun q _ id hl ↦ ?_
        exact (if_neg (hfree id q hl)).trans hl
      · refine ⟨fun id row hmem ↦ ?_, fun id u hmem ↦ nomatch hmem⟩
        obtain ⟨hget, -, hnone, hlt⟩ := mem_batch hmem
        exact ⟨if_pos (List.mem_map_of_mem hmem), hget, hnone, hlt⟩

theorem Holds.log {settings : RelaySettings} {pid : ℕ} {s : Store} {id : ℕ} {row : OutboxRow}
    (h : Holds settings pid s id row) (log : List Event) :
    Holds settings pid { s with log := log } id row :=
  ⟨h.lock, h.current, h.unpublished, h.attempts⟩

theorem Drain.Ok.log {settings : RelaySettings} {pid : ℕ} {s : Store} {p : Drain}
    (h : p.Ok settings pid s) {log : List Event} (hlog : ∀ e ∈ s.log, e ∈ log) :
    p.Ok settings pid { s with log := log } := by
  refine ⟨fun id row hmem ↦ (h.rows id row hmem).log log, fun id u hmem ↦ ?_⟩
  obtain ⟨row, hrow, hu⟩ := h.updates id u hmem
  exact ⟨row, hrow.log log, hu.mono hlog⟩

/-- The drain is done with its first row and notes an update of it. -/
theorem Drain.Ok.note {settings : RelaySettings} {pid : ℕ} {s : Store} {p : Drain} {id : ℕ}
    {row : OutboxRow} {rest : List (ℕ × OutboxRow)} (h : p.Ok settings pid s)
    (hrows : p.rows = (id, row) :: rest) {u : RowUpdate}
    (hu : Justified settings pid s.log id row u) :
    Drain.Ok settings pid s ⟨rest, (id, u) :: p.updates⟩ := by
  have hhead : Holds settings pid s id row := h.rows id row (hrows ▸ List.mem_cons_self)
  refine ⟨fun id' row' hmem ↦ ?_, fun id' u' hmem ↦ ?_⟩
  · exact h.rows id' row' (hrows ▸ List.mem_cons_of_mem _ hmem)
  · rcases List.mem_cons.mp hmem with he | hmem
    · cases he
      exact ⟨row, hhead, hu⟩
    · exact h.updates id' u' hmem

theorem recordFailure_justified {settings : RelaySettings} {pid id : ℕ} {log : List Event}
    {row : OutboxRow} (now : Time) (h : .rowError pid id ∈ log) :
    Justified settings pid log id row (recordFailure settings now row) :=
  ⟨h, rfl, fun hle ↦ if_pos hle⟩

theorem release_locks {s : Store} {pid q id : ℕ} (hne : q ≠ pid) (h : s.rowLocks id = some q) :
    (s.release pid).rowLocks id = some q := by
  have hother : s.rowLocks id ≠ some pid := fun hp ↦ hne (Option.some.inj (h.symm.trans hp))
  exact (if_neg hother).trans h

theorem commit_change {settings : RelaySettings} {pid : ℕ} {s : Store} {p : Drain}
    (hp : p.Ok settings pid s) : Change settings (.exec pid .commit) s
      (Store.release { s with db := applyUpdates p.updates s.db } pid) := by
  have hget := get?_applyUpdates p.updates s.db
  have hnext : (applyUpdates p.updates s.db).outbox.next = s.db.outbox.next := by
    generalize p.updates = us
    induction us with
    | nil => rfl
    | cons u us ih => exact ih
  refine ⟨hnext.ge, fun id row hrow ↦ ?_, fun id row' hnone hrow' ↦ ?_, fun _ he ↦ he,
    fun q hq id hl ↦ ⟨release_locks (fun he ↦ hq .commit (he ▸ rfl)) hl, fun row hrow _ ↦ ?_⟩⟩
  · change RowStep _ _ _ _ _ ((applyUpdates p.updates s.db).outbox.get? id)
    rw [hget, hrow, Option.map_some]
    have hjustified : ∀ u ∈ updatesOf id p.updates,
        Holds settings pid s id row ∧ Justified settings pid s.log id row u := by
      intro u hu
      obtain ⟨row₀, hrow₀, hu⟩ := hp.updates id u (mem_updatesOf.mp hu)
      have heq : row₀ = row := Option.some.inj (hrow₀.current.symm.trans hrow)
      exact heq ▸ ⟨hrow₀, hu⟩
    cases hus : updatesOf id p.updates with
    | nil => exact .kept
    | cons u us =>
        rw [hus] at hjustified
        obtain ⟨hholds, -⟩ := hjustified u List.mem_cons_self
        exact .drained pid rfl hholds.unpublished hholds.attempts
          (drained_foldr fun u' hu' ↦ (hjustified u' hu').2)
  · change (applyUpdates p.updates s.db).outbox.get? id = some row' at hrow'
    rw [hget, hnone] at hrow'
    cases hrow'
  · change (applyUpdates p.updates s.db).outbox.get? id = some row
    have hnil : updatesOf id p.updates = [] := by
      refine List.eq_nil_iff_forall_not_mem.mpr fun u hu ↦ ?_
      obtain ⟨row₀, hrow₀, -⟩ := hp.updates id u (mem_updatesOf.mp hu)
      have hpid : q = pid := Option.some.inj (hl.symm.trans hrow₀.lock)
      exact hq .commit (hpid ▸ rfl)
    rw [hget, hrow, hnil]
    rfl

theorem drainStep_change {settings : RelaySettings} {pid : ℕ} {s s' : Store} {p : Drain}
    {q : Option Drain} {a : ExecAction} (hp : p.Ok settings pid s)
    (h : drainStep settings pid s p a = some (s', q)) :
    Change settings (.exec pid a) s s' ∧ ∀ r, q = some r → r.Ok settings pid s' := by
  have hlogged : ∀ log : List Event, (∀ e ∈ s.log, e ∈ log) →
      Change settings (.exec pid a) s { s with log := log } := fun log hlog ↦
    .of_outbox rfl hlog fun _ _ _ hl ↦ hl
  have hcons : ∀ (e : Event), ∀ e' ∈ s.log, e' ∈ e :: s.log := fun e _ he ↦
    List.mem_cons_of_mem e he
  cases a with
  | xadd now =>
      simp only [drainStep] at h
      split at h
      · cases h
      · rename_i id row rest hrows
        cases h
        refine ⟨hlogged _ (hcons _), fun r hr ↦ ?_⟩
        cases hr
        exact (hp.log (hcons _)).note hrows List.mem_cons_self
  | xaddRaises now =>
      simp only [drainStep] at h
      split at h
      · cases h
      · rename_i id row rest hrows
        cases h
        refine ⟨hlogged _ (hcons _), fun r hr ↦ ?_⟩
        cases hr
        exact (hp.log (hcons _)).note hrows (recordFailure_justified now List.mem_cons_self)
  | redisUnavailable took =>
      simp only [drainStep] at h
      split at h
      · cases h
      · cases h
        have hlog : ∀ (es : List Event), ∀ e ∈ s.log, e ∈ Event.unavailable pid :: (es ++ s.log) :=
          fun es e he ↦ List.mem_cons_of_mem _ (List.mem_append_right es he)
        refine ⟨hlogged _ (hlog _), fun r hr ↦ ?_⟩
        cases hr
        exact ⟨fun _ _ hmem ↦ (nomatch hmem), (hp.log (hlog _)).updates⟩
  | commit =>
      simp only [drainStep] at h
      split at h
      · cases h
        exact ⟨commit_change hp, fun _ hr ↦ nomatch hr⟩
      · cases h
  | rollback =>
      cases h
      refine ⟨.of_outbox rfl (fun _ he ↦ he) fun q hq id hl ↦ ?_, fun _ hr ↦ nomatch hr⟩
      exact release_locks (fun he ↦ hq .rollback (he ▸ rfl)) hl

theorem sweepOutbox_change {settings : RelaySettings} {a : RelayAction} {s : Store}
    {batch : List ℕ} {snapshot : Database} (h : OutboxGrows snapshot s.db) :
    Change settings a s { s with db := sweepOutbox settings.toSettings batch snapshot s.db } := by
  refine ⟨le_rfl, fun id row hrow ↦ ?_, fun id row' hnone hrow' ↦ ?_, fun _ he ↦ he,
    fun pid _ id hl ↦ ⟨hl, fun row hrow hnone ↦ ?_⟩⟩
  · change RowStep _ _ _ _ _ ((sweepOutbox settings.toSettings batch snapshot s.db).outbox.get? id)
    rw [get?_sweepOutbox, hrow, Option.filter_some]
    split
    · exact .kept
    · rename_i hdelete
      rw [Bool.not_eq_true', Bool.not_eq_false, Bool.and_eq_true] at hdelete
      exact .deleted (h.published_of_expired hrow hdelete.2)
  · change (sweepOutbox settings.toSettings batch snapshot s.db).outbox.get? id = some row' at hrow'
    rw [get?_sweepOutbox, hnone] at hrow'
    cases hrow'
  · exact h.kept_of_unpublished settings.toSettings batch hrow hnone

theorem execStep_change {settings : RelaySettings} {pid : ℕ} {s s' : Store} {p : Process}
    {q : Option Process} {a : ExecAction} (hp : p.Ok settings pid s)
    (h : execStep settings pid s p a = some (s', q)) :
    Change settings (.exec pid a) s s' ∧ ∀ r, q = some r → r.Ok settings pid s' := by
  cases p with
  | drain p =>
      obtain ⟨⟨s₁, q₁⟩, hstep, he⟩ := Option.map_eq_some_iff.mp h
      cases he
      obtain ⟨hchange, hok⟩ := drainStep_change hp hstep
      refine ⟨hchange, fun r hr ↦ ?_⟩
      obtain ⟨d, hd, rfl⟩ := Option.map_eq_some_iff.mp hr
      exact hok d hd
  | sweep batch snapshot =>
      cases a with
      | commit =>
          cases h
          exact ⟨sweepOutbox_change hp, fun _ hr ↦ nomatch hr⟩
      | rollback =>
          cases h
          exact ⟨.of_outbox rfl (fun _ he ↦ he) fun _ _ _ hl ↦ hl, fun _ hr ↦ nomatch hr⟩
      | xadd now => cases h
      | xaddRaises now => cases h
      | redisUnavailable took => cases h

/-! ## Every run -/

theorem relay_proof (settings : RelaySettings) :
    ProcessPool.Machine.Proof (machine settings) (fun _ _ ↦ True) (RelayInv settings)
      fun pid p s ↦ p.Ok settings pid s where
  env σ e s h _ hs := by
    have hchange : Change settings (.env e) σ.shared s := envStep_change hs
    exact ⟨hchange.inv h.inv, fun pid p hp ↦ hp.frame (hchange.frame fun _ he ↦ nomatch he)⟩
  spawn σ n s p h _ hs := by
    obtain ⟨hchange, hok⟩ := spawnStep_change hs
    exact ⟨hchange.inv h.inv, hok,
      fun q r _ hr ↦ hr.frame (hchange.frame fun _ he ↦ nomatch he)⟩
  exec σ pid p a s q h _ hp hs := by
    obtain ⟨hchange, hok⟩ := execStep_change (h.assert pid p hp) hs
    refine ⟨hchange.inv h.inv, hok, fun r t hne hr ↦ hr.frame (hchange.frame fun b he ↦ ?_)⟩
    cases he
    exact hne rfl

theorem step_change {settings : RelaySettings} {σ τ : RelayState} {a : RelayAction}
    (h : (machine settings).Reachable FreshStore σ) (hs : (machine settings).step σ a = some τ) :
    RelayInv settings σ.shared ∧ Change settings a σ.shared τ.shared := by
  have hσ := (relay_proof settings).annotated (fun s hs id row hrow ↦ by
    rw [hs.1] at hrow
    cases hrow) h
  refine ⟨hσ.inv, ?_⟩
  obtain ⟨e, s, rfl, he, rfl⟩ | ⟨n, s, p, rfl, hn, rfl⟩ | ⟨pid, b, p, s, q, rfl, hp, hb, rfl⟩ :=
    ProcessPool.Machine.step_cases hs
  · exact envStep_change he
  · exact (spawnStep_change hn).1
  · exact (execStep_change (hσ.assert pid p hp) hb).1

/-- Some later drain takes the row, unless it finds the lock of the row taken. -/
def Selectable (settings : RelaySettings) (row : OutboxRow) : Prop :=
  ∀ now, row.nextAttemptAt ≤ now → isSelectable settings row.producer now row = true

theorem selectable_of_attempts {settings : RelaySettings} {row : OutboxRow}
    (hnone : row.publishedAt = none) (hlt : row.attempts < settings.outboxMaxAttempts) :
    Selectable settings row :=
  fun _ hnow ↦ decide_eq_true ⟨rfl, by rw [hnone]; rfl, hnow, hlt⟩

theorem retryOutbox_selectable (settings : RelaySettings) {db : Database} {id : ℕ}
    {row : OutboxRow} (hrow : db.outbox.get? id = some row) (hnone : row.publishedAt = none)
    (he : row.error = some .maxAttempts) :
    ∃ row', (retryOutbox id db).outbox.get? id = some row' ∧ Selectable settings row' := by
  have hget : (retryOutbox id db).outbox.get? id =
      some { row with attempts := 0, error := none, nextAttemptAt := db.now } := by
    change (db.outbox.toKeyedTable.mapRows _).get? id = _
    rw [KeyedTable.get?_mapRows, hrow, Option.map_some, if_pos ⟨rfl, by rw [hnone]; rfl, he⟩]
  exact ⟨_, hget, selectable_of_attempts hnone settings.maxAttempts_pos⟩

/-- The relays of a producer lose no row and give up on none for good. -/
theorem relays_lose_nothing {settings : RelaySettings} {σ τ : RelayState} {a : RelayAction}
    (h : (machine settings).Reachable FreshStore σ) (hs : (machine settings).step σ a = some τ)
    (id : ℕ) :
    (∀ row, τ.shared.db.outbox.get? id = some row →
      (row.publishedAt.isSome → .added id row.streamKey row.envelope ∈ τ.shared.log) ∧
      row.attempts ≤ settings.outboxMaxAttempts ∧
      (row.publishedAt = none → Selectable settings row ∨ row.error = some .maxAttempts ∧
        (τ.shared.rowLocks id = none → ∃ s row', envStep τ.shared (.recover id) = some s ∧
          s.db.outbox.get? id = some row' ∧ Selectable settings row'))) ∧
    ∀ row, σ.shared.db.outbox.get? id = some row →
      (τ.shared.db.outbox.get? id = none → row.publishedAt.isSome) ∧
      ∀ row', τ.shared.db.outbox.get? id = some row' →
        (row.publishedAt = none → row'.publishedAt.isSome → row'.streamKey = row.streamKey ∧
          row'.envelope = row.envelope ∧ .added id row.streamKey row.envelope ∈ σ.shared.log) ∧
        (row.attempts < row'.attempts → row'.attempts = row.attempts + 1 ∧
          ∃ pid, a = .exec pid .commit ∧ .rowError pid id ∈ σ.shared.log) := by
  obtain ⟨hinv, hchange⟩ := step_change h hs
  constructor
  · intro row hrow
    have hok := hchange.inv hinv id row hrow
    refine ⟨hok.published, hok.attempts, fun hnone ↦ ?_⟩
    rcases hok.recoverable hnone with hlt | he
    · exact .inl (selectable_of_attempts hnone hlt)
    · refine .inr ⟨he, fun hfree ↦ ?_⟩
      obtain ⟨row', hrow', hsel⟩ := retryOutbox_selectable settings hrow hnone he
      exact ⟨_, row', if_pos hfree, hrow', hsel⟩
  · intro row hrow
    have hstep := hchange.rows id row hrow
    refine ⟨fun hnone ↦ ?_, fun row' hrow' ↦ ?_⟩
    · rw [hnone] at hstep
      cases hstep with
      | deleted hp => exact hp
    · rw [hrow'] at hstep
      cases hstep with
      | kept =>
          exact ⟨fun hnone hp ↦ absurd hp (by simp [hnone]), fun hlt ↦ absurd hlt (lt_irrefl _)⟩
      | patched e hnone =>
          refine ⟨fun _ hp ↦ ?_, fun hlt ↦ absurd hlt (lt_irrefl _)⟩
          change row.publishedAt.isSome at hp
          rw [hnone] at hp
          cases hp
      | recovered now hnone he =>
          refine ⟨fun _ hp ↦ ?_, fun hlt ↦ absurd hlt (Nat.not_lt_zero _)⟩
          change row.publishedAt.isSome at hp
          rw [hnone] at hp
          cases hp
      | drained pid ha hnone hlt hd =>
          refine ⟨fun _ hp ↦ ⟨hd.streamKey, hd.envelope, ?_⟩, fun hgrow ↦ ?_⟩
          · rcases hd.published with heq | ⟨-, hadded⟩
            · rw [heq, hnone] at hp
              cases hp
            · exact hadded
          · rcases hd.attempts with ⟨heq, -⟩ | ⟨herror, hsucc, -⟩
            · omega
            · exact ⟨hsucc, pid, ha, herror⟩

/-- A drain publishes one row, is refused the next one and commits. -/
def drainedRun : List RelayAction :=
  [.env (.writeOutbox .bot .discordOutbound (.archiveThread 1 1 none)),
    .env (.writeOutbox .bot .discordOutbound (.archiveThread 2 1 none)),
    .spawn (.drain .bot 0 []), .exec 0 (.xadd 0), .exec 0 (.xaddRaises 0)]

def relaySettings : RelaySettings := ⟨.default, by decide⟩

def freshStore : Store := ⟨.empty, fun _ ↦ none, []⟩

def drainedState : RelayState :=
  ((machine relaySettings).run (.start freshStore) drainedRun).get (by decide +kernel)

def committedState : RelayState :=
  ((machine relaySettings).step drainedState (.exec 0 .commit)).get (by decide +kernel)

theorem relays_lose_nothing_refused :
    ∃ row row', drainedState.shared.db.outbox.get? 2 = some row ∧
      committedState.shared.db.outbox.get? 2 = some row' ∧ row.attempts < row'.attempts ∧
      (row'.publishedAt = none → Selectable relaySettings row' ∨ row'.error = some .maxAttempts) ∧
      row'.attempts = row.attempts + 1 ∧ .rowError 0 2 ∈ drainedState.shared.log := by
  have hfresh : FreshStore freshStore := ⟨rfl, fun _ ↦ rfl, rfl⟩
  have hreach : (machine relaySettings).Reachable FreshStore drainedState :=
    ProcessPool.Machine.reachable_of_run hfresh (Option.some_get _).symm
  have hstep : (machine relaySettings).step drainedState (.exec 0 .commit) = some committedState :=
    (Option.some_get _).symm
  obtain ⟨hstate, hrows⟩ := relays_lose_nothing hreach hstep 2
  obtain ⟨row, hrow⟩ : ∃ row, drainedState.shared.db.outbox.get? 2 = some row :=
    Option.isSome_iff_exists.mp (by decide +kernel)
  obtain ⟨row', hrow'⟩ : ∃ row, committedState.shared.db.outbox.get? 2 = some row :=
    Option.isSome_iff_exists.mp (by decide +kernel)
  have hattempts : (drainedState.shared.db.outbox.get? 2).map OutboxRow.attempts = some 0 ∧
      (committedState.shared.db.outbox.get? 2).map OutboxRow.attempts = some 1 := by
    decide +kernel
  rw [hrow, hrow'] at hattempts
  have hlt : row.attempts < row'.attempts := by
    rw [Option.some.inj hattempts.1, Option.some.inj hattempts.2]
    decide
  obtain ⟨hsucc, pid, ha, herror⟩ := ((hrows row hrow).2 row' hrow').2 hlt
  cases ha
  refine ⟨row, row', hrow, hrow', hlt, fun hnone ↦ ?_, hsucc, herror⟩
  exact ((hstate row' hrow').2.2 hnone).imp_right And.left

end OutboxRelay

end Discode
