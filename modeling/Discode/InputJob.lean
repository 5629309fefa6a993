import Discode.World
import Mathlib.Data.List.MinMax

/-!
# `run_input_job`

A handler runs one `send_input` job under the advisory lock of its session.  Every stage is
the program point before one transaction, one call of the reply client or the subprocess;
an exception or a crash may end the handler at any stage, and then its lock is free.
-/

set_option autoImplicit false

namespace Discode

inductive Outcome where
  | delivered | skippedReplay | deferred | aborted
  deriving DecidableEq, Repr

/-- What the reply client reports: success, a `ReplyError`, or any other exception. -/
inductive Response where
  | ok
  | replyError (status : ℕ)
  | failed
  deriving DecidableEq, Repr

inductive InputStage where
  | start
  | locked
  | sessionRead (row : SessionRow)
  | turnRead (row : SessionRow) (turn : Option InputTurn)
  | interrupted (version : ℕ)
  | uncertainNotice (version : ℕ)
  | uncertainPosted
  | revalidate (row : SessionRow)
  | denied (version : ℕ)
  | deniedNotice (version : ℕ)
  | deniedPosted
  | persistIntent (row : SessionRow)
  | admitted (row : SessionRow)
  | executing (row : SessionRow)
  | executed (version : ℕ) (reply : PyStr) (token : Option Token)
  | deliver (version : ℕ) (reply : Option PyStr)
  | posted
  | mark (status : TurnStatus) (outcome : Outcome)
  | leaving (outcome : Outcome)
  | returned (outcome : Outcome)
  deriving DecidableEq, Repr

structure InputHandler where
  payload : InputJobPayload
  /-- The runner that consumes the job, and the entry to acknowledge. -/
  hostId : HostId
  entry : ℕ
  stage : InputStage
  deriving DecidableEq, Repr

inductive InputAction where
  | lock (collision : Bool)
  | readSession
  | readTurn
  | readEarliest
  | markUncertain
  | revalidate (denied : Bool)
  | markAborted
  | persistIntent
  | start
  | failToStart (reply : PyStr)
  | finish (reply : PyStr) (token : Option PyStr)
  | record
  | post
  | respond (response : Response)
  | mark
  | leave
  | acknowledge
  deriving DecidableEq, Repr

/-! ## The transactions -/

/-- The first three checks of `_run_locked`. -/
def InputJobPayload.accepts (p : InputJobPayload) (row : SessionRow) : Bool :=
  row.status.isLive ∧ row.guildId = p.guildId ∧ row.hostId = some p.hostId ∧
    (p.lifecycleVersion = none ∨ p.lifecycleVersion = some row.lifecycleVersion)

def Database.unfinishedTurns (db : Database) (sid : SessionId) (version : ℕ) :
    List (Key × InputTurn) :=
  db.inputTurns.select fun _ t ↦
    t.sessionId = sid ∧ t.lifecycleVersion = version ∧ t.status.isUnfinished

def Database.earliestUnfinished (db : Database) (sid : SessionId) (version : ℕ) : Option Key :=
  ((db.unfinishedTurns sid version).argmin fun e ↦ e.2.sequence).map Prod.fst

/-- What `_run_locked` does once it knows the turn and the earliest unfinished one. -/
def InputJobPayload.resolve (p : InputJobPayload) (row : SessionRow) (turn : Option InputTurn)
    (earliest : Option Key) : InputStage :=
  if earliest.any (· ≠ p.idempotencyKey) then .leaving .deferred
  else match turn with
    | none => .revalidate row
    | some t =>
        if t.sessionId ≠ p.sessionId ∨ t.lifecycleVersion ≠ row.lifecycleVersion then
          .leaving .aborted
        else match t.status with
          | .queued => .revalidate row
          | .delivered | .deliveryFailed | .aborted => .leaving .skippedReplay
          | .executing | .uncertain => .interrupted row.lifecycleVersion
          | .completed => .deliver row.lifecycleVersion t.resultText

/-- `_mark_turn`. -/
def markTurn (key : Key) (status : TurnStatus) (onlyIf : Option TurnStatus) (db : Database) :
    Database :=
  db.updateTurn key fun t ↦
    if onlyIf.all (· = t.status) then { t with status := status, updatedAt := db.now } else t

def markUncertain (key : Key) (db : Database) : Database :=
  db.updateTurn key fun t ↦ { t with status := .uncertain, updatedAt := db.now }

/-- The intent transaction; `none` when the session is no longer live at `version`. -/
def admitTurn (p : InputJobPayload) (version : ℕ) (db : Database) : Option Database :=
  match db.session? p.sessionId with
  | none => none
  | some r =>
      if r.lifecycleVersion ≠ version ∨ !r.status.isLive then none
      else
        let touched := db.updateSession p.sessionId fun r ↦
          { r with lastActivityAt := db.now, status := .running }
        match touched.turn? p.idempotencyKey with
        | none => touched.insertTurn? p.idempotencyKey p.sessionId version .executing
        | some _ => some (touched.updateTurn p.idempotencyKey fun t ↦
            if t.status = .queued ∧ t.sessionId = p.sessionId ∧ t.lifecycleVersion = version then
              { t with status := .executing, updatedAt := db.now } else t)

/-- The result transaction. -/
def recordResult (p : InputJobPayload) (version : ℕ) (reply : PyStr) (token : Option Token)
    (db : Database) : Database :=
  (db.updateTurn p.idempotencyKey fun t ↦
    { t with
      status := .completed, resultText := some reply, resumeToken := token
      updatedAt := db.now }).updateSession p.sessionId fun r ↦
    if r.lifecycleVersion = version ∧ r.status.isLive then
      { r with toolResumeToken := token <|> r.toolResumeToken, lastActivityAt := db.now } else r

def uncertainText : PyStr :=
  pyStr ("⚠️ The previous execution was interrupted; its effects are uncertain. " ++
    "Inspect the workspace, then restart this session to continue.")

def cwdDeniedText : PyStr :=
  pyStr ("⚠️ This session's workspace is no longer an allowed root; " ++
    "input was not run. Ask an admin to re-allow it, then restart.")

/-! ## The handler -/

namespace InputHandler

variable (p : InputHandler)

abbrev session : SessionId := p.payload.sessionId

abbrev key : Key := p.payload.idempotencyKey

def at_ (stage : InputStage) : InputHandler := { p with stage := stage }

def onRespond : InputStage → Response → Option InputStage
  | .uncertainPosted, .ok => some (.leaving .aborted)
  | .uncertainPosted, .replyError status =>
      some (.leaving (if status = 410 then .aborted else .deferred))
  | .uncertainPosted, .failed => some (.leaving .deferred)
  | .deniedPosted, _ => some (.leaving .aborted)
  | .posted, .ok => some (.mark .delivered .delivered)
  | .posted, .replyError status =>
      if status = 410 ∨ status = 422 then some (.mark .deliveryFailed .aborted)
      else some (.leaving .deferred)
  | .posted, .failed => some (.leaving .deferred)
  | _, _ => none

/-- The reply a stage posts, with its version and the stage after it. -/
def posting : Option (ℕ × ReplyKey × Option PyStr × InputStage) :=
  match p.stage with
  | .uncertainNotice version =>
      some (version, .uncertain p.key, some uncertainText, .uncertainPosted)
  | .deniedNotice version => some (version, .cwdDenied p.key, some cwdDeniedText, .deniedPosted)
  | .deliver version reply => some (version, .turn p.key, reply, .posted)
  | _ => none

def step (pid : ℕ) (w : World) : InputAction → Option (World × Option InputHandler)
  | .lock collision =>
      match p.stage with
      | .start =>
          if collision ∨ w.locks p.session ≠ none then some (w, p.at_ (.returned .deferred))
          else some (w.lock p.session pid, p.at_ .locked)
      | _ => none
  | .readSession =>
      match p.stage with
      | .locked =>
          match (w.db.session? p.session).filter p.payload.accepts with
          | none => some (w, p.at_ (.leaving .aborted))
          | some row => some (w, p.at_ (.sessionRead row))
      | _ => none
  | .readTurn =>
      match p.stage with
      | .sessionRead row => some (w, p.at_ (.turnRead row (w.db.turn? p.key)))
      | _ => none
  | .readEarliest =>
      match p.stage with
      | .turnRead row turn => some (w, p.at_ (p.payload.resolve row turn
          (w.db.earliestUnfinished p.session row.lifecycleVersion)))
      | _ => none
  | .markUncertain =>
      match p.stage with
      | .interrupted version =>
          some (w.setDb (markUncertain p.key w.db), p.at_ (.uncertainNotice version))
      | _ => none
  | .revalidate denied =>
      match p.stage with
      | .revalidate row => some (w, p.at_ (if denied then .denied row.lifecycleVersion else
          .persistIntent row))
      | _ => none
  | .markAborted =>
      match p.stage with
      | .denied version => some (w.setDb (markTurn p.key .aborted (some .queued) w.db),
          p.at_ (.deniedNotice version))
      | _ => none
  | .persistIntent =>
      match p.stage with
      | .persistIntent row =>
          match admitTurn p.payload row.lifecycleVersion w.db with
          | none => some (w, p.at_ (.leaving .aborted))
          | some db => some ((w.setDb db).emit
              (.admitted pid p.session row.lifecycleVersion p.key), p.at_ (.admitted row))
      | _ => none
  | .start =>
      match p.stage with
      | .admitted row => some (w.emit
          (.started pid p.session row.lifecycleVersion p.key row.toolResumeToken),
          p.at_ (.executing row))
      | _ => none
  | .failToStart reply =>
      match p.stage with
      | .admitted row => some (w, p.at_ (.executed row.lifecycleVersion reply none))
      | _ => none
  | .finish reply token =>
      match p.stage with
      | .executing row =>
          let token := token.map fun value ↦
            (⟨value, .parsed p.session p.key row.lifecycleVersion⟩ : Token)
          some (w.emit (.finished pid p.session row.lifecycleVersion p.key token),
            p.at_ (.executed row.lifecycleVersion reply token))
      | _ => none
  | .record =>
      match p.stage with
      | .executed version reply token =>
          some ((w.setDb (recordResult p.payload version reply token w.db)).emit
            (.recorded pid p.session p.key reply), p.at_ (.deliver version (some reply)))
      | _ => none
  | .post => p.posting.map fun (version, replyKey, text, stage) ↦
      (w.emit (.replied pid p.session version replyKey text), some (p.at_ stage))
  | .respond response => (onRespond p.stage response).map fun stage ↦ (w, some (p.at_ stage))
  | .mark =>
      match p.stage with
      | .mark status outcome =>
          some (w.setDb (markTurn p.key status none w.db), p.at_ (.leaving outcome))
      | _ => none
  | .leave =>
      match p.stage with
      | .leaving outcome => some (w.release pid, p.at_ (.returned outcome))
      | _ => none
  | .acknowledge =>
      match p.stage with
      | .returned outcome =>
          let stream := StreamKey.inputJobs p.hostId
          some (if outcome = .deferred then w
            else w.setStream stream ((w.streams stream).ack () p.entry), none)
      | _ => none

/-! ## What one step of a handler does to the world -/

inductive Effect (pid : ℕ) (w : World) (p : InputHandler) : InputAction → World → Prop where
  | stay (a : InputAction) : Effect pid w p a w
  | lock (collision : Bool) : Effect pid w p (.lock collision) (w.lock p.session pid)
  | markUncertain : Effect pid w p .markUncertain (w.setDb (Discode.markUncertain p.key w.db))
  | markAborted :
      Effect pid w p .markAborted (w.setDb (markTurn p.key .aborted (some .queued) w.db))
  | persistIntent {row : SessionRow} {db : Database} (hstage : p.stage = .persistIntent row)
      (hdb : admitTurn p.payload row.lifecycleVersion w.db = some db) :
      Effect pid w p .persistIntent ((w.setDb db).emit
        (.admitted pid p.session row.lifecycleVersion p.key))
  | start {row : SessionRow} (hstage : p.stage = .admitted row) :
      Effect pid w p .start (w.emit
        (.started pid p.session row.lifecycleVersion p.key row.toolResumeToken))
  | finish {row : SessionRow} (hstage : p.stage = .executing row) (reply : PyStr)
      (token : Option PyStr) : Effect pid w p (.finish reply token) (w.emit
        (.finished pid p.session row.lifecycleVersion p.key (token.map fun value ↦
          ⟨value, .parsed p.session p.key row.lifecycleVersion⟩)))
  | record {version : ℕ} {reply : PyStr} {token : Option Token}
      (hstage : p.stage = .executed version reply token) :
      Effect pid w p .record ((w.setDb (recordResult p.payload version reply token w.db)).emit
        (.recorded pid p.session p.key reply))
  | post {version : ℕ} {replyKey : ReplyKey} {text : Option PyStr} {stage : InputStage}
      (h : p.posting = some (version, replyKey, text, stage)) :
      Effect pid w p .post (w.emit (.replied pid p.session version replyKey text))
  | mark {status : TurnStatus} {outcome : Outcome} (hstage : p.stage = .mark status outcome) :
      Effect pid w p .mark (w.setDb (markTurn p.key status none w.db))
  | leave : Effect pid w p .leave (w.release pid)
  | acknowledge {outcome : Outcome} (hstage : p.stage = .returned outcome)
      (h : outcome ≠ .deferred) : Effect pid w p .acknowledge
        (w.setStream (.inputJobs p.hostId) ((w.streams (.inputJobs p.hostId)).ack () p.entry))

theorem step_effect {pid : ℕ} {w w' : World} {p : InputHandler} {q : Option InputHandler}
    {a : InputAction} (h : p.step pid w a = some (w', q)) : p.Effect pid w a w' := by
  cases a with
  | lock collision =>
      simp only [step] at h
      split at h
      · split at h <;> cases h
        · exact .stay _
        · exact .lock collision
      · cases h
  | readSession =>
      simp only [step] at h
      split at h
      · split at h <;> cases h <;> exact .stay _
      · cases h
  | markUncertain =>
      simp only [step] at h
      split at h <;> cases h
      exact .markUncertain
  | markAborted =>
      simp only [step] at h
      split at h <;> cases h
      exact .markAborted
  | persistIntent =>
      simp only [step] at h
      split at h
      · rename_i row hstage
        split at h
        · cases h
          exact .stay _
        · rename_i db hdb
          cases h
          exact .persistIntent hstage hdb
      · cases h
  | start =>
      simp only [step] at h
      split at h <;> cases h
      rename_i row hstage
      exact .start hstage
  | finish reply token =>
      simp only [step] at h
      split at h <;> cases h
      rename_i row hstage
      exact .finish hstage reply token
  | record =>
      simp only [step] at h
      split at h <;> cases h
      rename_i version reply token hstage
      exact .record hstage
  | post =>
      obtain ⟨⟨version, replyKey, text, stage⟩, hposting, he⟩ := Option.map_eq_some_iff.mp h
      cases he
      exact .post hposting
  | respond response =>
      obtain ⟨stage, -, he⟩ := Option.map_eq_some_iff.mp h
      cases he
      exact .stay _
  | mark =>
      simp only [step] at h
      split at h <;> cases h
      rename_i status outcome hstage
      exact .mark hstage
  | leave =>
      simp only [step] at h
      split at h <;> cases h
      exact .leave
  | acknowledge =>
      simp only [step] at h
      split at h <;> cases h
      rename_i outcome hstage
      split
      · exact .stay _
      · rename_i hne
        exact .acknowledge hstage hne
  | readTurn =>
      simp only [step] at h
      split at h <;> cases h
      exact .stay _
  | readEarliest =>
      simp only [step] at h
      split at h <;> cases h
      exact .stay _
  | revalidate denied =>
      simp only [step] at h
      split at h <;> cases h
      exact .stay _
  | failToStart reply =>
      simp only [step] at h
      split at h <;> cases h
      exact .stay _

end InputHandler

end Discode
