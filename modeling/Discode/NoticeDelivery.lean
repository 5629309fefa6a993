import Discode.Database
import Discode.Library.ProcessPool
import Discode.Library.TransitionSystem

/-!
# Delivery of notices by the dispatcher

`_claim_act_finalize` claims an idempotency key, performs a side effect and records the
outcome in one transaction, which stays open during the network call.  Deliveries of an
envelope overlap, repeat and fail anywhere, and the server may end a transaction on its own.
-/

set_option autoImplicit false

namespace Discode.NoticeDelivery

/-! ## Envelopes -/

/-- The `envelope_type` of a key row. -/
inductive EnvelopeType where
  | terminalNoticePost
  | terminalNoticeArchive
  | archiveThread
  | systemNotice
  deriving DecidableEq, Repr

structure DeliveryKey where
  etype : EnvelopeType
  ikey : String
  deriving DecidableEq, Repr

/-- The calls of the Discord client. -/
inductive SideEffect where
  | sendToDiscord (threadId : Option ThreadId) (message : String) (nonce : Option String)
  | archiveDiscordThread (threadId : Option ThreadId)
  deriving DecidableEq, Repr

/-- The envelopes of `discord:outbound`, with `none` for an empty id. -/
inductive Notice where
  | terminal (sessionId : Option SessionId) (threadId : Option ThreadId) (ikey message : String)
      (thenArchive : Bool)
  | archiveThread (sessionId : Option SessionId) (threadId : Option ThreadId) (ikey : String)
  | system (sessionId : Option SessionId) (threadId : Option ThreadId) (ikey : String)
      (noticeType : Option NoticeType) (message : String)
  deriving DecidableEq, Repr

/-- `_CREATE_FAILURE_TEXT`. -/
def createFailureText : String → Option String
  | "creation_timeout" => some "the runner did not respond in time"
  | "cwd_invalid" => some "the workspace is not an allowed root on the runner"
  | "tool_unavailable" => some "the tool is unknown or disabled"
  | "host_unavailable" => some "the runner host is unavailable"
  | _ => none

def renderNotice (noticeType : Option NoticeType) (message : String) : String :=
  match noticeType with
  | some .sessionCreateFailed =>
      let reason := (createFailureText message).getD
        (if message = "" then "unknown error" else message)
      "❌ Session could not start: " ++ reason ++ "."
  | some .sessionRunning =>
      if message = "" then "✅ Session ready. Send your messages in this thread." else message
  | none => message

/-- A call of `_claim_act_finalize`, or a bare side effect if there is no key. -/
structure Part where
  key : Option DeliveryKey
  /-- The `session_id` of the key row. -/
  session : Option SessionId
  sideEffect : SideEffect
  /-- The session whose archive timestamps `finalize` sets. -/
  archives : Option SessionId
  deriving DecidableEq, Repr

def postPart (sessionId : Option SessionId) (threadId : Option ThreadId)
    (ikey message : String) : Part :=
  ⟨some ⟨.terminalNoticePost, ikey ++ "#post"⟩, sessionId,
    .sendToDiscord threadId message (some (ikey ++ "#post")), none⟩

def archivePart (sessionId : Option SessionId) (threadId : Option ThreadId) (ikey : String) :
    Part :=
  ⟨some ⟨.terminalNoticeArchive, ikey ++ "#archive"⟩, sessionId, .archiveDiscordThread threadId,
    sessionId⟩

/-- What the handler of an envelope does, in order. -/
def Notice.parts : Notice → List Part
  | terminal sessionId threadId ikey message thenArchive =>
      (if message = "" then [] else [postPart sessionId threadId ikey message]) ++
        if thenArchive then [archivePart sessionId threadId ikey] else []
  | archiveThread sessionId threadId ikey =>
      [⟨some ⟨.archiveThread, ikey⟩, sessionId, .archiveDiscordThread threadId, sessionId⟩]
  | system sessionId threadId ikey noticeType message =>
      let text := renderNotice noticeType message
      if threadId = none ∨ text = "" then []
      else if ikey = "" then [⟨none, sessionId, .sendToDiscord threadId text none, none⟩]
      else
        [⟨some ⟨.systemNotice, ikey⟩, sessionId, .sendToDiscord threadId text (some ikey), none⟩]

/-! ## The shared state -/

inductive Outcome where
  | done
  deriving DecidableEq, Repr

/-- The columns of `sessions` that the handlers read or write. -/
structure ThreadRow where
  status : Status
  discordThreadArchivedAt : Option Time
  threadArchiveRequestedAt : Option Time
  deriving DecidableEq, Repr

inductive Event where
  | attempted (pid : ℕ) (notice : Notice) (key : Option DeliveryKey)
  | performed (pid : ℕ) (key : Option DeliveryKey)
  | returned (pid : ℕ) (key : Option DeliveryKey)
  | raised (pid : ℕ) (key : Option DeliveryKey)
  | finalized (pid : ℕ) (key : DeliveryKey) (archives : Option SessionId)
  /-- The session is live again, so the archive is stale. -/
  | passedOver (pid : ℕ) (notice : Notice)
  | handled (pid : ℕ) (notice : Notice)
  /-- The server ended the transaction of the delivery. -/
  | rolledBack (pid : ℕ)
  deriving DecidableEq, Repr

/-- `keys` and `sessions` hold what is committed.  A lock is a row lock, or the index entry
of a key row that its transaction has inserted and not yet committed.  The foreign key of such
a row keeps its session row `FOR KEY SHARE` until the transaction ends. -/
structure Dispatcher where
  now : Time
  keys : DeliveryKey → Option (Option Outcome)
  sessions : SessionId → Option ThreadRow
  locks : DeliveryKey → Option ℕ
  keyShares : List (ℕ × SessionId)
  isOpen : ℕ → Bool
  /-- The newest event comes first. -/
  log : List Event

namespace Dispatcher

def emit (w : Dispatcher) (e : Event) : Dispatcher := { w with log := e :: w.log }

def begin (w : Dispatcher) (pid : ℕ) : Dispatcher :=
  { w with isOpen := Function.update w.isOpen pid true }

def lock (w : Dispatcher) (key : DeliveryKey) (pid : ℕ) : Dispatcher :=
  { w with locks := Function.update w.locks key (some pid) }

def share (w : Dispatcher) (sessionId : Option SessionId) (pid : ℕ) : Dispatcher :=
  { w with keyShares := (sessionId.map fun sid ↦ (pid, sid)).toList ++ w.keyShares }

/-- The transaction ends; what it wrote is gone unless it was committed. -/
def close (w : Dispatcher) (pid : ℕ) : Dispatcher :=
  { w with
    locks := fun key ↦ if w.locks key = some pid then none else w.locks key
    keyShares := w.keyShares.filter fun e ↦ e.1 ≠ pid
    isOpen := Function.update w.isOpen pid false }

/-- `finalize` and the `UPDATE` of the outcome become visible with the commit. -/
def commit (w : Dispatcher) (key : DeliveryKey) (archives : Option SessionId) : Dispatcher :=
  { w with
    keys := Function.update w.keys key (some (some .done))
    sessions := fun sid ↦ if archives = some sid then (w.sessions sid).map fun row ↦
        { row with discordThreadArchivedAt := some w.now, threadArchiveRequestedAt := some w.now }
      else w.sessions sid }

end Dispatcher

/-! ## A delivery -/

inductive Stage where
  /-- `handle_archive_thread` before it reads the status of the session. -/
  | guard
  /-- Before the next part, or after the last one. -/
  | next
  | inserted
  /-- The side effect is under way; the flag tells whether it took place. -/
  | acting (performed : Bool)
  | acted
  deriving DecidableEq, Repr

structure Delivery where
  notice : Notice
  /-- The parts that are not done yet. -/
  rest : List Part
  stage : Stage

def Delivery.start (notice : Notice) : Delivery :=
  ⟨notice, notice.parts, match notice with | .archiveThread .. => .guard | _ => .next⟩

inductive DeliveryAction where
  | readStatus
  | insertKey
  | selectOutcome
  | perform
  | effectReturns
  | effectRaises
  | commit
  | finish
  /-- A statement fails, the task is cancelled or the process dies. -/
  | fail
  deriving DecidableEq, Repr

/-- `_LIVE_STATUSES`. -/
def liveStatuses : List Status := [.creating, .resuming, .running, .idle]

/-- The check of `handle_archive_thread`; without a session id there is none. -/
def Dispatcher.isLive (w : Dispatcher) (sessionId : Option SessionId) : Bool :=
  (sessionId.bind w.sessions).any fun row ↦ row.status ∈ liveStatuses

def Delivery.insertKey (pid : ℕ) (w : Dispatcher) (p : Delivery) (part : Part) :
    Option (Dispatcher × Option Delivery) :=
  match part.key with
  | none => some (w.emit (.attempted pid p.notice none), some { p with stage := .acting false })
  | some key =>
      -- `ValueError("delivery requires an idempotency key")`
      if key.ikey = "" then some (w, none)
      else match w.keys key, w.locks key with
        | some _, _ => some (w.begin pid, some { p with stage := .inserted })
        | none, none =>
            if part.session.all fun sid ↦ (w.sessions sid).isSome then
              some (((w.begin pid).lock key pid).share part.session pid,
                some { p with stage := .inserted })
            -- The foreign key is violated.
            else some (w, none)
        | none, some _ => none

/-- `SELECT … FOR UPDATE` waits for the row lock; it fails when the transaction is gone. -/
def Delivery.selectOutcome (pid : ℕ) (w : Dispatcher) (p : Delivery) (key : DeliveryKey)
    (rest : List Part) : Option (Dispatcher × Option Delivery) :=
  if !w.isOpen pid then some (w, none)
  else if w.locks key = some pid then
    some (w.emit (.attempted pid p.notice (some key)), some { p with stage := .acting false })
  else match w.keys key, w.locks key with
    | some (some _), none => some (w.close pid, some { p with rest := rest, stage := .next })
    | some none, none =>
        some ((w.lock key pid).emit (.attempted pid p.notice (some key)),
          some { p with stage := .acting false })
    | some _, some _ => none
    | none, _ => some (w.close pid, none)

def Delivery.commit (pid : ℕ) (w : Dispatcher) (p : Delivery) (key : DeliveryKey) (part : Part)
    (rest : List Part) : Dispatcher × Option Delivery :=
  if w.isOpen pid then
    (((w.commit key part.archives).close pid).emit (.finalized pid key part.archives),
      some { p with rest := rest, stage := .next })
  else (w, none)

def Delivery.step (pid : ℕ) (w : Dispatcher) (p : Delivery) (a : DeliveryAction) :
    Option (Dispatcher × Option Delivery) :=
  match a, p.stage, p.rest with
  | .readStatus, .guard, _ =>
      match p.notice with
      | .archiveThread sessionId _ _ =>
          if w.isLive sessionId then some (w.emit (.passedOver pid p.notice), none)
          else some (w, some { p with stage := .next })
      | _ => none
  | .insertKey, .next, part :: _ => p.insertKey pid w part
  | .selectOutcome, .inserted, part :: rest =>
      part.key.bind fun key ↦ p.selectOutcome pid w key rest
  | .perform, .acting _, part :: _ =>
      some (w.emit (.performed pid part.key), some { p with stage := .acting true })
  | .effectReturns, .acting true, part :: rest =>
      let w := w.emit (.returned pid part.key)
      match part.key with
      | none => some (w, some { p with rest := rest, stage := .next })
      | some _ => some (w, some { p with stage := .acted })
  | .effectRaises, .acting _, part :: _ =>
      some ((w.emit (.raised pid part.key)).close pid, none)
  | .commit, .acted, part :: rest => part.key.map fun key ↦ p.commit pid w key part rest
  | .finish, .next, [] => some (w.emit (.handled pid p.notice), none)
  | .fail, _, _ => some (w.close pid, none)
  | _, _, _ => none

/-! ## The dispatcher -/

inductive EnvAction where
  | tick (ms : ℕ)
  /-- Some other component changes the status of a session. -/
  | writeStatus (sid : SessionId) (status : Status)
  /-- `sweep_archive_timeout`. -/
  | requestArchive (sid : SessionId)
  /-- The server ends a transaction, whatever its delivery is doing. -/
  | rollback (pid : ℕ)
  deriving DecidableEq, Repr

def ThreadRow.withStatus (row : Option ThreadRow) (status : Status) : ThreadRow :=
  match row with
  | none => ⟨status, none, none⟩
  | some row => { row with status := status }

def envStep (w : Dispatcher) : EnvAction → Option Dispatcher
  | .tick ms => some { w with now := w.now + ms }
  | .writeStatus sid status =>
      -- Only the sagas make a session live again; they wait for the row `FOR UPDATE`.
      if status ∈ liveStatuses ∧ w.isLive (some sid) = false ∧
          sid ∈ w.keyShares.map Prod.snd then none
      else some { w with
        sessions := Function.update w.sessions sid (some (.withStatus (w.sessions sid) status)) }
  | .requestArchive sid =>
      match w.sessions sid with
      | some row =>
          if row.status = .idle then some { w with
            sessions := Function.update w.sessions sid
              (some { row with status := .archived, threadArchiveRequestedAt := some w.now }) }
          else none
      | none => none
  | .rollback pid => if w.isOpen pid then some ((w.close pid).emit (.rolledBack pid)) else none

/-- Any envelope may be delivered at any time, and as often as the stream likes. -/
def dispatcher : ProcessPool.Machine Dispatcher Delivery EnvAction Notice DeliveryAction where
  env := envStep
  spawn _ w notice := some (w, .start notice)
  exec pid w p a := p.step pid w a

def Dispatcher.init : Dispatcher where
  now := 0
  keys := fun _ ↦ none
  sessions := fun _ ↦ none
  locks := fun _ ↦ none
  keyShares := []
  isOpen := fun _ ↦ false
  log := []

abbrev DispatcherState := ProcessPool.State Dispatcher Delivery

abbrev DispatcherReachable : DispatcherState → Prop := dispatcher.Reachable (· = .init)

end Discode.NoticeDelivery
