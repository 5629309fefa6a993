import Discode.Library.ConsumerStream
import Discode.ReplyApi
import Mathlib.Logic.Function.Basic
import Mathlib.Order.Nat

/-!
# The shared state

The database, the Redis streams, the advisory locks and the history of the effects that
leave them: subprocess starts, replies and chunks.  The history is never read by the code.
-/

set_option autoImplicit false

namespace Discode

/-- The three idempotency keys under which the runner posts replies of a turn. -/
inductive ReplyKey where
  | turn (key : Key) | uncertain (key : Key) | cwdDenied (key : Key)
  deriving DecidableEq, Repr

/-- `f"{ikey}:uncertain"` and its siblings. -/
def ReplyKey.text : ReplyKey → PyStr
  | turn key => keyText key
  | uncertain key => keyText key ++ pyStr ":uncertain"
  | cwdDenied key => keyText key ++ pyStr ":cwd_denied"
where
  keyText (key : Key) : PyStr := (Nat.toDigits 10 key).map Char.toNat

inductive Event where
  | tookOver (heir predecessor : SessionId) (token : Option Token)
  | becameRunning (session : SessionId) (version : ℕ) (token : Option Token)
  | restarted (session : SessionId) (version : ℕ)
  | admitted (pid : ℕ) (session : SessionId) (version : ℕ) (key : Key)
  | started (pid : ℕ) (session : SessionId) (version : ℕ) (key : Key) (token : Option Token)
  | finished (pid : ℕ) (session : SessionId) (version : ℕ) (key : Key) (token : Option Token)
  | recorded (pid : ℕ) (session : SessionId) (key : Key) (text : PyStr)
  | replied (pid : ℕ) (session : SessionId) (version : ℕ) (replyKey : ReplyKey)
      (text : Option PyStr)
  | chunkChecked (request : ℕ) (session : SessionId) (version chunk : ℕ)
  | chunkPosted (request : ℕ) (session : SessionId) (version chunk : ℕ)
  deriving DecidableEq, Repr

/-- Every stream has the one consumer group its consumers create. -/
abbrev JobStream := ConsumerStream Unit ℕ Envelope

structure World where
  /-- The configuration in force; operators change it between deployments. -/
  settings : Settings
  redactor : Redactor
  db : Database
  replies : ReplyStore
  streams : StreamKey → JobStream
  /-- The holder of the advisory lock of a session. -/
  locks : SessionId → Option ℕ
  /-- The holder of the advisory lock `create:{guild}:{owner}`. -/
  createLocks : GuildId × UserId → Option ℕ
  /-- The sessions that create jobs entered in the `session_store` of a runner. -/
  registered : List SessionId
  /-- The newest event comes first. -/
  log : List Event

namespace World

def init (settings : Settings) (redactor : Redactor) : World where
  settings := settings
  redactor := redactor
  db := .empty
  replies := .empty
  streams := fun _ ↦ ConsumerStream.init 0
  locks := fun _ ↦ none
  createLocks := fun _ ↦ none
  registered := []
  log := []

def tick (w : World) (ms : ℕ) : World :=
  { w with
    db := { w.db with now := w.db.now + ms }
    replies := { w.replies with now := w.replies.now + ms } }

def setDb (w : World) (db : Database) : World := { w with db := db }

def emit (w : World) (e : Event) : World := { w with log := e :: w.log }

def setStream (w : World) (key : StreamKey) (s : JobStream) : World :=
  { w with streams := Function.update w.streams key s }

def lock (w : World) (sid : SessionId) (pid : ℕ) : World :=
  { w with locks := Function.update w.locks sid (some pid) }

def unlock (w : World) (sid : SessionId) : World :=
  { w with locks := Function.update w.locks sid none }

/-- A dead process holds no lock: its transactions end with its connections. -/
def release (w : World) (pid : ℕ) : World :=
  { w with
    locks := fun sid ↦ if w.locks sid = some pid then none else w.locks sid
    createLocks := fun k ↦ if w.createLocks k = some pid then none else w.createLocks k }

/-! ## What each operation leaves alone -/

@[simp] theorem db_setDb (w : World) (db : Database) : (w.setDb db).db = db := rfl

@[simp] theorem locks_setDb (w : World) (db : Database) : (w.setDb db).locks = w.locks := rfl

@[simp] theorem log_setDb (w : World) (db : Database) : (w.setDb db).log = w.log := rfl

@[simp] theorem streams_setDb (w : World) (db : Database) :
    (w.setDb db).streams = w.streams := rfl

@[simp] theorem db_emit (w : World) (e : Event) : (w.emit e).db = w.db := rfl

@[simp] theorem locks_emit (w : World) (e : Event) : (w.emit e).locks = w.locks := rfl

@[simp] theorem log_emit (w : World) (e : Event) : (w.emit e).log = e :: w.log := rfl

@[simp] theorem streams_emit (w : World) (e : Event) : (w.emit e).streams = w.streams := rfl

@[simp] theorem db_setStream (w : World) (key : StreamKey) (s : JobStream) :
    (w.setStream key s).db = w.db := rfl

@[simp] theorem locks_setStream (w : World) (key : StreamKey) (s : JobStream) :
    (w.setStream key s).locks = w.locks := rfl

@[simp] theorem log_setStream (w : World) (key : StreamKey) (s : JobStream) :
    (w.setStream key s).log = w.log := rfl

@[simp] theorem streams_setStream (w : World) (key : StreamKey) (s : JobStream)
    (key' : StreamKey) : (w.setStream key s).streams key' = if key' = key then s else
      w.streams key' := by
  simp [setStream, Function.update_apply]

@[simp] theorem db_lock (w : World) (sid : SessionId) (pid : ℕ) :
    (w.lock sid pid).db = w.db := rfl

@[simp] theorem log_lock (w : World) (sid : SessionId) (pid : ℕ) :
    (w.lock sid pid).log = w.log := rfl

@[simp] theorem streams_lock (w : World) (sid : SessionId) (pid : ℕ) :
    (w.lock sid pid).streams = w.streams := rfl

@[simp] theorem locks_lock (w : World) (sid : SessionId) (pid : ℕ) (sid' : SessionId) :
    (w.lock sid pid).locks sid' = if sid' = sid then some pid else w.locks sid' := by
  simp [lock, Function.update_apply]

@[simp] theorem db_unlock (w : World) (sid : SessionId) : (w.unlock sid).db = w.db := rfl

@[simp] theorem log_unlock (w : World) (sid : SessionId) : (w.unlock sid).log = w.log := rfl

@[simp] theorem streams_unlock (w : World) (sid : SessionId) :
    (w.unlock sid).streams = w.streams := rfl

@[simp] theorem locks_unlock (w : World) (sid sid' : SessionId) :
    (w.unlock sid).locks sid' = if sid' = sid then none else w.locks sid' := by
  simp [unlock, Function.update_apply]

@[simp] theorem db_release (w : World) (pid : ℕ) : (w.release pid).db = w.db := rfl

@[simp] theorem log_release (w : World) (pid : ℕ) : (w.release pid).log = w.log := rfl

@[simp] theorem streams_release (w : World) (pid : ℕ) :
    (w.release pid).streams = w.streams := rfl

@[simp] theorem locks_release (w : World) (pid : ℕ) (sid : SessionId) :
    (w.release pid).locks sid = if w.locks sid = some pid then none else w.locks sid := rfl

end World

end Discode
