import Discode.World

/-!
# The outbox relay and stream trimming

A drain publishes its rows one by one and marks them in one commit at the end, so a crash
in between leaves rows unmarked that are already in their stream.
-/

set_option autoImplicit false

namespace Discode

/-! ## `RelayLoop._drain_batch` -/

structure RelayBatch where
  rows : List (ℕ × OutboxRow)
  published : List (ℕ × OutboxRow)
  failed : List (ℕ × OutboxRow)
  deriving DecidableEq, Repr

inductive RelayAction where
  | xadd
  | xaddRaises
  | redisUnavailable
  | commit
  deriving DecidableEq, Repr

/-- The rows of one batch, by id. -/
def drainRows (settings : Settings) (producer : Producer) (db : Database) :
    List (ℕ × OutboxRow) :=
  (db.outbox.select fun _ row ↦ row.producer = producer ∧ row.publishedAt.isNone ∧
    row.nextAttemptAt ≤ db.now ∧ row.attempts < settings.outboxMaxAttempts).take
      settings.outboxBatchSize

def RelayBatch.begin (settings : Settings) (producer : Producer) (db : Database) : RelayBatch :=
  ⟨drainRows settings producer db, [], []⟩

/-- `_record_failure`. -/
def OutboxRow.recordFailure (settings : Settings) (now : Time) (row : OutboxRow) : OutboxRow :=
  let attempts := row.attempts + 1
  { row with
    attempts := attempts
    nextAttemptAt := now + min (settings.outboxBaseBackoffMs * 2 ^ min attempts 30)
      settings.outboxMaxBackoffMs
    error := some (if settings.outboxMaxAttempts ≤ attempts then .maxAttempts else .other) }

/-- The commit of a drain. -/
def RelayBatch.mark (settings : Settings) (p : RelayBatch) (db : Database) : Database :=
  { db with outbox := db.outbox.mapRows fun id row ↦
      if (p.published.map Prod.fst).contains id then { row with publishedAt := some db.now }
      else if (p.failed.map Prod.fst).contains id then row.recordFailure settings db.now
      else row }

/-- `XADD`; Redis assigns the next id. -/
def JobStream.xadd (s : JobStream) (e : Envelope) : JobStream :=
  s.add (s.lastId + 1) (Nat.lt_succ_self _) e

def RelayBatch.step (w : World) (p : RelayBatch) : RelayAction → Option (World × Option RelayBatch)
  | .xadd =>
      match p.rows with
      | [] => none
      | (id, row) :: rest => some (
          w.setStream row.streamKey (JobStream.xadd (w.streams row.streamKey) row.envelope),
          some { p with rows := rest, published := (id, row) :: p.published })
  | .xaddRaises =>
      match p.rows with
      | [] => none
      | (id, row) :: rest => some (w, some { p with rows := rest, failed := (id, row) :: p.failed })
  | .redisUnavailable => some (w, some { p with rows := [] })
  | .commit =>
      match p.rows with
      | [] => some (w.setDb (p.mark w.settings w.db), none)
      | _ => none

/-- `recover_outbox.py --retry`. -/
def retryOutbox (id : ℕ) (db : Database) : Database :=
  { db with outbox := db.outbox.mapRows fun id' row ↦
      if id' = id ∧ row.publishedAt.isNone ∧ row.error = some .maxAttempts then
        { row with attempts := 0, error := none, nextAttemptAt := db.now } else row }

/-! ## `trim_acknowledged` -/

inductive TrimStage where
  | start
  | groupRead (floor : ℕ)
  | pendingRead (floor : ℕ)
  deriving DecidableEq, Repr

structure TrimCall where
  stream : StreamKey
  stage : TrimStage
  deriving DecidableEq, Repr

inductive TrimAction where
  /-- `XINFO GROUPS`; the retention window gives the first bound. -/
  | readGroup (retentionFloor : ℕ)
  | readPending
  | trim
  deriving DecidableEq, Repr

def TrimCall.step (w : World) (p : TrimCall) : TrimAction → Option (World × Option TrimCall)
  | .readGroup retentionFloor =>
      match p.stage with
      | .start => some (w, some { p with
          stage := .groupRead (min retentionFloor ((w.streams p.stream).groups ()).lastDelivered) })
      | _ => none
  | .readPending =>
      match p.stage with
      | .groupRead floor =>
          let pending := ((w.streams p.stream).groups ()).pending
          some (w, some { p with
            stage := .pendingRead (pending.min?.elim floor (min floor)) })
      | _ => none
  | .trim =>
      match p.stage with
      | .pendingRead floor =>
          some (if floor = 0 then w
            else w.setStream p.stream ((w.streams p.stream).trim floor), none)
      | _ => none

end Discode
